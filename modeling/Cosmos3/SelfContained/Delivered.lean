import Cosmos3.SelfContained.Safe

namespace Cosmos3.SelfContained

open Basis Basis.Posix

section Items

-- Two destinations of which neither is below the other, nor the first a temporary sibling of the second.
def Separate (other rel : List Name) : Prop :=
  ¬other <:+ rel ∧ ¬rel <:+ other ∧
    match rel with
    | [] => False
    | name :: up => other ≠ tmpName name :: up

instance (other rel : List Name) : Decidable (Separate other rel) :=
  match rel with
  | [] => inferInstanceAs (Decidable (_ ∧ _ ∧ False))
  | name :: up => inferInstanceAs (Decidable (_ ∧ _ ∧ other ≠ tmpName name :: up))

-- What an item has brought to its destination.
def Delivered (before : List Node) (item : CopyItem) (path : List Name) (bytes : List UInt8) : Prop :=
  match item.kind with
  | .file => path = item.rel ∧ readAt before item.source = some bytes
  | .dir => TreeOf before item.source item.rel path bytes

variable {before : List Node} {root : ℕ} {F : List Name → List UInt8 → Prop} {item other : CopyItem}
  {name : Name} {up path : List Name} {bytes : List UInt8}

theorem Delivered.suffix (h : Delivered before item path bytes) : item.rel <:+ path := by
  unfold Delivered at h
  split at h
  · exact h.1 ▸ List.suffix_rfl
  · exact h.suffix

-- What one item has brought is not in the way of another.
theorem Delivered.not_suffix (h : Delivered before other path bytes) (hseparate : Separate other.rel item.rel) :
    ¬item.rel <:+ path := fun hsuffix =>
  (List.suffix_or_suffix_of_suffix h.suffix hsuffix).elim hseparate.1 hseparate.2.1

theorem Delivered.ne_tmpName (h : Delivered before other (tmpName name :: up) bytes)
    (hseparate : Separate other.rel (name :: up)) : False := by
  obtain ⟨hbelow, -, hne⟩ := hseparate
  rcases List.suffix_cons_iff.mp h.suffix with heq | hup
  · exact hne heq
  · exact hbelow (hup.trans (List.suffix_cons name up))

theorem spec_copyItem (limit : ℕ) (hrel : item.rel = name :: up)
    (hF : ∀ path bytes, F path bytes → ¬item.rel <:+ path) (htmp : ∀ bytes, ¬F (tmpName name :: up) bytes)
    (hsource : Sourced before root item.source) :
    Program.Spec (Holds before root F fun path => path = []) (copyItem root limit item)
      (fun _ fs => Holds before root (fun path bytes => F path bytes ∨ Delivered before item path bytes)
        (fun path => path = []) fs ∧ (item.kind = .file → ∃ bytes, readAt before item.source = some bytes))
      (Confined before root) := by
  have hparents := @spec_ensureRealDirs before root F (fun path => path = []) rfl item.rel.tail
  have hup : up = item.rel.tail := by rw [hrel]; rfl
  rw [copyItem]
  refine hparents.seq fun _ => ?_
  rw [← hup]
  cases hkind : item.kind with
  | dir =>
      have hplace := @spec_ensureRealDir before root F (fun path => path = [] ∨ path = up) name up (.inr rfl)
      rw [hrel]
      refine hplace.seq fun _ => (spec_copyTree limit (.inr rfl) (hrel ▸ hF) hsource).mono (fun _ h => h)
        (fun _ fs h => ⟨(h.mono_dirs fun _ hpath => .inl (.inl hpath)).mono_files ?_, fun hfile => ?_⟩) fun _ h => h
      · rintro path bytes (hpath | hdone)
        · exact .inl hpath
        · rw [Delivered, hkind, hrel] at hdone
          exact .inr hdone
      · cases hfile
  | file =>
      have hdropped := @spec_dropLink before root F (fun path => path = [] ∨ path = up) name up (.inr rfl)
      have hcopied := @spec_copyFileBytes before root F (fun path => path = [] ∨ path = up) name up item.source
        (.inr rfl) (fun bytes hpath => hF _ bytes hpath (hrel ▸ List.suffix_rfl)) htmp hsource
      rw [hrel]
      refine (hdropped.mono (fun _ h => h) (fun _ _ h => h.1) fun _ h => h).seq fun _ => hcopied.mono (fun _ h => h)
        (fun _ fs h => ⟨(h.1.mono_dirs fun _ hpath => .inl hpath).mono_files ?_, fun _ => h.2⟩) fun _ h => h
      rintro path bytes (hpath | hdone)
      · exact .inl hpath
      · rw [Delivered, hkind, hrel] at hdone
        exact .inr hdone

-- After some of the items, what these bring is there.
theorem spec_executeCopy (limit : ℕ) {plan : CopyPlan} (hseparate : (plan.items.map (·.rel)).Pairwise Separate)
    (hrels : ∀ item ∈ plan.items, item.rel ≠ [])
    (hsource : ∀ item ∈ plan.items, Sourced before plan.dst item.source) :
    Program.Spec (Holds before plan.dst (fun _ _ => False) fun path => path = []) (executeCopy limit plan)
      (fun _ fs => Holds before plan.dst (fun path bytes => ∃ item ∈ plan.items, Delivered before item path bytes)
        (fun path => path = []) fs ∧
        ∀ item ∈ plan.items, item.kind = .file → ∃ bytes, readAt before item.source = some bytes)
      (Confined before plan.dst) := by
  have hloop := @Program.Spec.forEach Fs OsError (Confined before plan.dst) CopyItem (copyItem plan.dst limit)
    (fun front fs => Holds before plan.dst (fun path bytes => ∃ item ∈ front, Delivered before item path bytes)
      (fun path => path = []) fs ∧
      ∀ item ∈ front, item.kind = .file → ∃ bytes, readAt before item.source = some bytes)
    plan.items ?_ fun _ h => h.1.confined
  · refine hloop.mono (fun _ h => ⟨h.mono_files ?_, fun item hitem => by cases hitem⟩) (fun _ _ h => h) fun _ h => h
    rintro path bytes ⟨item, hitem, -⟩
    cases hitem
  · intro front item back hitems
    have hmem : item ∈ plan.items := hitems ▸ List.mem_append_right front List.mem_cons_self
    have hbefore : ∀ other ∈ front, Separate other.rel item.rel := by
      intro other hother
      rw [hitems, List.map_append, List.map_cons] at hseparate
      exact (List.pairwise_append.mp hseparate).2.2 _ (List.mem_map_of_mem hother) _ List.mem_cons_self
    obtain ⟨name, up, hrel⟩ := List.exists_cons_of_ne_nil (hrels item hmem)
    have hitem := @spec_copyItem before plan.dst
      (fun path bytes => ∃ other ∈ front, Delivered before other path bytes) item name up limit hrel ?_ ?_
      (hsource item hmem)
    · refine ⟨fun fs _ fs' h hends => ?_, fun fs stop fs' h hends => hitem.stops fs stop fs' h.1 hends⟩
      obtain ⟨hholds, hread⟩ := hitem.returns fs () fs' h.1 hends
      refine ⟨hholds.mono_files ?_, fun other hother => ?_⟩
      · rintro path bytes ⟨other, hother, hdone⟩
        rcases List.mem_append.mp hother with hother | hother
        · exact .inl ⟨other, hother, hdone⟩
        · exact .inr (List.mem_singleton.mp hother ▸ hdone)
      · rcases List.mem_append.mp hother with hother | hother
        · exact h.2 other hother
        · exact List.mem_singleton.mp hother ▸ hread
    · rintro path bytes ⟨other, hother, hdone⟩
      exact hdone.not_suffix (hbefore other hother)
    · rintro bytes ⟨other, hother, hdone⟩
      exact hdone.ne_tmpName (hrel ▸ hbefore other hother)

end Items

section Inventory

variable {before : List Node} {root source : ℕ} {src : Path} {item : CopyItem}

-- The destinations of the inventory.
def rels : List (List Name) :=
  SHARED_DIRS.map (fun d => [d]) ++ ROOT_FILES.map (fun f => [f]) ++ ASSET_FILES.map (fun a => [a, assets]) ++
    REASONER_DIRS.map (fun d => [d, reasoner]) ++ REASONER_CONFIGS.map (fun f => [f, reasoner])

theorem inventory_rel (src : Path) : (inventory src).map (·.rel) = rels := by
  simp [inventory, rels, Function.comp_def]

theorem rels_separate : rels.Pairwise Separate := by decide +kernel

theorem rel_ne_nil (h : item ∈ inventory src) : item.rel ≠ [] := by
  simp only [inventory, List.mem_append, List.mem_map] at h
  rcases h with (((⟨d, -, rfl⟩ | ⟨f, -, rfl⟩) | ⟨a, -, rfl⟩) | ⟨d, -, rfl⟩) | ⟨f, -, rfl⟩ <;> exact List.cons_ne_nil _ _

theorem exists_descend (h : item ∈ inventory src) : ∃ names, names ≠ [] ∧ item.source = src.descend names := by
  simp only [inventory, List.mem_append, List.mem_map] at h
  rcases h with (((⟨d, -, rfl⟩ | ⟨f, -, rfl⟩) | ⟨a, -, rfl⟩) | ⟨d, -, rfl⟩) | ⟨f, -, rfl⟩
  · exact ⟨[d], List.cons_ne_nil _ _, rfl⟩
  · exact ⟨[f], List.cons_ne_nil _ _, rfl⟩
  · refine ⟨[assets, a], List.cons_ne_nil _ _, ?_⟩
    rw [descend_cons, ← child_eq_descend]
  · exact ⟨[d], List.cons_ne_nil _ _, rfl⟩
  · exact ⟨[f], List.cons_ne_nil _ _, rfl⟩

theorem planCopy_eq_ok {fs : Fs} {dst : ℕ} {plan : CopyPlan} (h : planCopy fs dst source = .ok plan) :
    plan = ⟨inventory ⟨source, []⟩, dst, source⟩ ∧
      ∀ item ∈ inventory ⟨source, []⟩, pathExists fs.nodes item.source = true := by
  unfold planCopy at h
  dsimp only at h
  split_ifs at h with hmissing
  split at h
  · cases h
  · cases h
    refine ⟨rfl, fun item hitem => ?_⟩
    have hnone := List.filter_eq_nil_iff.mp (not_not.mp hmissing) item hitem
    simpa using hnone

-- The source of a plan is a directory.
theorem source_lt {fs : Fs} {dst : ℕ} {plan : CopyPlan} (h : planCopy fs dst source = .ok plan) :
    source < fs.nodes.length := by
  obtain ⟨-, hexist⟩ := planCopy_eq_ok h
  have hfirst : (⟨[transformer, reasoner], .dir, (⟨source, []⟩ : Path).child transformer, .reasoner⟩ : CopyItem) ∈
      inventory ⟨source, []⟩ := by simp [inventory, REASONER_DIRS, transformer]
  obtain ⟨i, hi⟩ := Option.isSome_iff_exists.mp (hexist _ hfirst)
  obtain ⟨e, he, hentry⟩ := @stat_through _ i ⟨source, []⟩ _ [] hi
  have hself : stat fs.nodes ⟨source, []⟩ = some source := walk_found rfl MAXSYMLINKS
  obtain rfl : source = e := Option.some.inj (hself.symm.trans he)
  obtain ⟨j, hj⟩ := Option.isSome_iff_exists.mp hentry
  exact entryOf_lt hj

end Inventory

section Sample

def folder (parent : ℕ) (entries : List (Name × ℕ)) : Node :=
  .dir parent (entries.map fun entry => (⟨entry.1, entry.2⟩ : Sigma fun _ : Name => ℕ)).toAList

def base : Name := ⟨ascii "base", by decide⟩

def dist : Name := ⟨ascii "dist", by decide⟩

def weights : Name := ⟨ascii "model.safetensors", by decide⟩

-- A source of one file under many names, and a destination with links to it and the file itself.
def sampleNodes : List Node :=
  [folder 0 [(base, 1), (dist, 2)],
    folder 0 (SHARED_DIRS.zip [4, 5, 6, 7, 8] ++ ROOT_FILES.map (fun f => (f, 3)) ++
      [(transformer, 9), (assets, 10)]),
    folder 0 [(vae, 11), (tmpName config, 12), (vocab, 3), (scheduler, 13)],
    .file [1, 2, 3], folder 1 [(weights, 3)], folder 1 [], folder 1 [], folder 1 [], folder 1 [(config, 3)],
    folder 1 [(weights, 3)], folder 1 (ASSET_FILES.map fun a => (a, 3)),
    .link ⟨true, [.name base, .name vae]⟩, .link ⟨false, [.up, .name base, .name config]⟩,
    folder 2 [(config, 12)]]

theorem sampleNodes_ordered : Ordered sampleNodes := by decide +kernel

def sampleFs : Fs := ⟨sampleNodes, sampleNodes_ordered.wellFormed⟩

theorem sampleFs_apart (names : List Name) : Apart sampleFs.nodes 2 ⟨1, names.map .name⟩ :=
  @apart_of_edges sampleFs.nodes 2 1 [1, 3, 4, 5, 6, 7, 8, 9, 10] [2, 13] (by decide +kernel) (by decide +kernel)
    (by decide) (by decide +kernel) (by decide) (by decide) names

theorem sampleFs_plan : planCopy sampleFs 2 1 = .ok ⟨inventory ⟨1, []⟩, 2, 1⟩ := by
  have hok : (planCopy sampleFs 2 1).isOk = true := by decide +kernel
  cases hplan : planCopy sampleFs 2 1 with
  | error e =>
      rw [hplan] at hok
      cases hok
  | ok plan => rw [(planCopy_eq_ok hplan).1]

theorem sampleFs_run : ∃ fs', (executeCopy 3 ⟨inventory ⟨1, []⟩, 2, 1⟩).exec sampleFs = (.ok (), fs') := by
  have hok : ((executeCopy 3 ⟨inventory ⟨1, []⟩, 2, 1⟩).exec sampleFs).1.isOk = true := by decide +kernel
  cases hrun : (executeCopy 3 ⟨inventory ⟨1, []⟩, 2, 1⟩).exec sampleFs with
  | mk result fs' =>
      rw [hrun] at hok
      cases result with
      | error e => cases hok
      | ok u => exact ⟨fs', rfl⟩

end Sample

section Whole

variable {nodes : List Node} {root source i : ℕ}

-- A directory and all that is below it.
def InTree (nodes : List Node) (source i : ℕ) : Prop := i = source ∨ ∃ path, realEntry nodes source path = some i

theorem InTree.lt (wf : WellFormed nodes) (hsource : source < nodes.length) (h : InTree nodes source i) :
    i < nodes.length := by
  rcases h with rfl | ⟨path, hpath⟩
  · exact hsource
  · cases path with
    | nil => cases hpath
    | cons name up =>
        obtain ⟨d, -, hentry⟩ := Option.bind_eq_some_iff.mp hpath
        exact wf.closed d name i hentry

-- A directory of a tree that is apart from a root is not below that root.
theorem InTree.ne_realDir (h : InTree nodes source i)
    (hapart : ∀ names : List Name, Apart nodes root ⟨source, names.map .name⟩) (place : List Name) :
    realDir nodes root place ≠ some i := by
  intro hplace
  have hmem : ∃ names : List Name, i ∈ trails nodes MAXSYMLINKS source (names.map .name) := by
    rcases h with rfl | ⟨path, hpath⟩
    · exact ⟨[], mem_trails_of_walk (walk_found rfl MAXSYMLINKS)⟩
    · cases path with
      | nil => cases hpath
      | cons name up =>
          obtain ⟨d, hup, hentry⟩ := Option.bind_eq_some_iff.mp hpath
          have hreal : realDir nodes source (name :: up) = some i :=
            realDir_cons.mpr ⟨d, hup, hentry, isDir_of_realDir hplace⟩
          exact ⟨(name :: up).reverse, mem_trails_of_walk (stat_realDir hreal)⟩
  obtain ⟨names, hnames⟩ := hmem
  exact hapart names i hnames place hplace

-- The copy changes nothing of the source, and what it has to bring is there when it returns.
theorem executeCopy_safe (fs fs' : Fs) (dst source limit : ℕ) (plan : CopyPlan)
    (outcome : Except Basis.Stop Unit) (hroot : isDir fs.nodes dst = true)
    (hapart : ∀ names : List Name, Apart fs.nodes dst ⟨source, names.map .name⟩)
    (hplan : planCopy fs dst source = .ok plan) (hends : (executeCopy limit plan).ends fs outcome fs') :
    (∀ i, InTree fs.nodes source i → fs'.nodes[i]? = fs.nodes[i]?) ∧
      (outcome = .ok () → ∀ item ∈ plan.items,
        match item.kind with
        | .file => ∃ bytes, readAt fs.nodes item.source = some bytes ∧
            realFile fs'.nodes dst item.rel = some bytes
        | .dir => ∀ names bytes, readAt fs.nodes (item.source.descend names) = some bytes →
            realFile fs'.nodes dst (names.reverse ++ item.rel) = some bytes) := by
  obtain ⟨rfl, -⟩ := planCopy_eq_ok hplan
  have hlt := source_lt hplan
  have hsource : ∀ item ∈ inventory ⟨source, []⟩, Sourced fs.nodes dst item.source := by
    intro item hitem
    obtain ⟨names, -, heq⟩ := exists_descend hitem
    rw [heq]
    exact ⟨fs.wellFormed, hlt, fun more => by rw [descend_descend]; exact hapart (names ++ more)⟩
  have hspec := @spec_executeCopy fs.nodes limit ⟨inventory ⟨source, []⟩, dst, source⟩
    (by rw [inventory_rel]; exact rels_separate) (fun item hitem => rel_ne_nil hitem) hsource
  have hstart : Holds fs.nodes dst (fun _ _ => False) (fun path => path = []) fs := by
    refine ⟨Frame.refl _ _, fun _ _ h => h.elim, ?_⟩
    rintro path rfl
    exact ⟨dst, realDir_nil hroot⟩
  have hkept : Frame fs.nodes dst fs'.nodes → ∀ i, InTree fs.nodes source i → fs'.nodes[i]? = fs.nodes[i]? :=
    fun hframe i hi => hframe.kept i (hi.lt fs.wellFormed hlt) (hi.ne_realDir hapart)
  cases outcome with
  | error stop => exact ⟨hkept (hspec.stops fs stop fs' hstart hends), fun h => by cases h⟩
  | ok u =>
      obtain ⟨hholds, hread⟩ := hspec.returns fs u fs' hstart hends
      refine ⟨hkept hholds.frame, fun _ item hitem => ?_⟩
      cases hkind : item.kind with
      | file =>
          obtain ⟨bytes, hbytes⟩ := hread item hitem hkind
          refine ⟨bytes, hbytes, hholds.files _ _ ⟨item, hitem, ?_⟩⟩
          rw [Delivered, hkind]
          exact ⟨rfl, hbytes⟩
      | dir =>
          intro names bytes hbytes
          refine hholds.files _ _ ⟨item, hitem, ?_⟩
          rw [Delivered, hkind]
          exact ⟨names, rfl, hbytes⟩

theorem executeCopy_safe_of_links :
    ∃ fs', (executeCopy 3 ⟨inventory ⟨1, []⟩, 2, 1⟩).exec sampleFs = (.ok (), fs') ∧ fs'.nodes[3]? = some (.file [1, 2, 3]) ∧
      realFile fs'.nodes 2 [config] = some [1, 2, 3] ∧ realFile fs'.nodes 2 [weights, vae] = some [1, 2, 3] := by
  obtain ⟨fs', hrun⟩ := sampleFs_run
  obtain ⟨hkept, hdone⟩ := executeCopy_safe sampleFs fs' 2 1 3 ⟨inventory ⟨1, []⟩, 2, 1⟩ (.ok ()) (by decide +kernel)
    sampleFs_apart sampleFs_plan ((Program.ends_ok_iff _).mpr hrun)
  have hfile : (⟨[config], .file, (⟨1, []⟩ : Path).child config, .root⟩ : CopyItem) ∈ inventory ⟨1, []⟩ := by
    decide +kernel
  have hdir : (⟨[vae], .dir, (⟨1, []⟩ : Path).child vae, .shared⟩ : CopyItem) ∈ inventory ⟨1, []⟩ := by decide +kernel
  refine ⟨fs', hrun, ?_, ?_, hdone rfl _ hdir [weights] [1, 2, 3] (by decide +kernel)⟩
  · exact hkept 3 (.inr ⟨[config], by decide +kernel⟩)
  · obtain ⟨bytes, hbytes, hreal⟩ := hdone rfl _ hfile
    have hsame : readAt sampleFs.nodes ((⟨1, []⟩ : Path).child config) = some [1, 2, 3] := by decide +kernel
    rw [hreal, ← hsame]
    exact hbytes.symm

end Whole

end Cosmos3.SelfContained
