import Cosmos3.Basis.Checks
import Cosmos3.SelfContained.Delivered
import Cosmos3.SelfContained.Parents
import Cosmos3.SelfContained.Verify

namespace Cosmos3.SelfContained

open Basis Basis.Posix

section Gather

theorem of_gather {ι : Type} {f : ι → Except OsError Found} {items : List ι} {found : Found}
    (h : gather f items = .ok found) (hclean : found.1 = []) :
    ∀ item ∈ items, ∃ part, f item = .ok part ∧ part.1 = [] := by
  induction items generalizing found with
  | nil =>
      intro item hitem
      cases hitem
  | cons first rest ih =>
      obtain ⟨part, hpart, hrest⟩ := bind_eq_ok.mp h
      obtain ⟨others, hothers, hfound⟩ := bind_eq_ok.mp hrest
      obtain rfl : (part.1 ++ others.1, part.2 ++ others.2) = found := Except.ok.inj hfound
      obtain ⟨hfirst, hlater⟩ := List.append_eq_nil_iff.mp hclean
      intro item hitem
      rcases List.mem_cons.mp hitem with rfl | hitem
      · exact ⟨part, hpart, hfirst⟩
      · exact ih hothers hlater item hitem

end Gather

section Seen

variable {machine : Machine} {nodes : List Node} {dst : ℕ} {source : Path} {rel path : List Name}
  {group : Group} {found : Found} {item : CopyItem}

-- A directory has an entry at a path, whatever that leads to.
def Listed (nodes : List Node) (source : Path) (names : List Name) : Prop :=
  names = [] ∨ ∃ front name e, names = front ++ [name] ∧ stat nodes (source.descend front) = some e ∧
    (entryOf nodes e name).isSome = true

-- The places below the destination that an item stands for.
def Seen (nodes : List Node) (item : CopyItem) (path : List Name) : Prop :=
  match item.kind with
  | .file => path = item.rel
  | .dir => ∃ names, Listed nodes item.source names ∧ path = names.reverse ++ item.rel

theorem mem_of_entry {name : Name} {listed : List Name} {e : ℕ} (hlist : listDir nodes source = .ok listed)
    (he : stat nodes source = some e) (hentry : (entryOf nodes e name).isSome = true) : name ∈ listed := by
  rw [listDir, he, Option.bind_some] at hlist
  split at hlist
  · rename_i parent entries hdir
    cases hlist
    rw [entryOf_dir hdir] at hentry
    exact AList.mem_keys.mp (AList.lookup_isSome.mp hentry)
  · cases hlist
  · cases hlist

theorem Listed.head {name : Name} {names listed : List Name} (h : Listed nodes source (name :: names))
    (hlist : listDir nodes source = .ok listed) : name ∈ listed := by
  obtain hnil | ⟨front, last, e, hnames, he, hentry⟩ := h
  · cases hnil
  · cases front with
    | nil =>
        obtain ⟨rfl, -⟩ := List.cons.inj hnames
        rw [descend_nil] at he
        exact mem_of_entry hlist he hentry
    | cons first front =>
        obtain ⟨rfl, -⟩ := List.cons.inj hnames
        obtain ⟨e', he', hentry'⟩ := stat_through he
        exact mem_of_entry hlist he' hentry'

theorem Listed.tail {name : Name} {names : List Name} (h : Listed nodes source (name :: names)) :
    Listed nodes (source.child name) names := by
  obtain hnil | ⟨front, last, e, hnames, he, hentry⟩ := h
  · cases hnil
  · cases front with
    | nil =>
        obtain ⟨-, rfl⟩ := List.cons.inj hnames
        exact .inl rfl
    | cons first front =>
        obtain ⟨rfl, rfl⟩ := List.cons.inj hnames
        exact .inr ⟨front, last, e, rfl, by rw [← descend_cons]; exact he, hentry⟩

theorem Listed.isDirAt {name : Name} {names : List Name} (h : Listed nodes source (name :: names)) :
    isDirAt nodes source = true := by
  have hdir : ∀ {e : ℕ} {name : Name}, stat nodes source = some e → (entryOf nodes e name).isSome = true →
      Posix.isDirAt nodes source = true := by
    intro e name he hentry
    obtain ⟨j, hj⟩ := Option.isSome_iff_exists.mp hentry
    rw [Posix.isDirAt, he]
    exact isDir_of_entryOf hj
  obtain hnil | ⟨front, last, e, hnames, he, hentry⟩ := h
  · cases hnil
  · cases front with
    | nil =>
        rw [descend_nil] at he
        exact hdir he hentry
    | cons first front =>
        obtain ⟨e', he', hentry'⟩ := stat_through he
        exact hdir he' hentry'

theorem verifyFile_clean (h : verifyFile machine nodes dst source rel group = .ok found) (hclean : found.1 = []) :
    isSymlink nodes dst rel = false := by
  unfold verifyFile at h
  split_ifs at h with hlink
  · cases h
    cases hclean
  · exact Bool.eq_false_iff.mpr hlink

-- No place of a tree that has been verified is a link.
theorem verifyTree_clean {limit : ℕ} (h : verifyTree machine nodes dst limit source rel group = .ok found)
    (hclean : found.1 = []) {names : List Name} (hnames : Listed nodes source names) :
    isSymlink nodes dst (names.reverse ++ rel) = false := by
  induction limit generalizing source rel found names with
  | zero => cases h
  | succ limit ih =>
      rw [verifyTree] at h
      split_ifs at h with hlink hdir
      · cases h
        cases hclean
      · cases h
        cases hclean
      · cases names with
        | nil => exact Bool.eq_false_iff.mpr hlink
        | cons name names =>
            cases hlist : listDir nodes source with
            | error e =>
                rw [hlist] at h
                cases h
            | ok listed =>
                rw [hlist] at h
                have hmem := (List.mem_insertionSort nameLe).mpr (hnames.head hlist)
                obtain ⟨part, hpart, hnone⟩ := of_gather h hclean name hmem
                rw [List.reverse_cons, List.append_assoc, List.singleton_append]
                cases names with
                | nil =>
                    split_ifs at hpart with hchild
                    · exact ih hpart hnone (.inl rfl)
                    · exact verifyFile_clean hpart hnone
                | cons next names =>
                    rw [if_pos hnames.tail.isDirAt] at hpart
                    exact ih hpart hnone hnames.tail

theorem verifyItem_clean (h : verifyItem machine nodes dst item = .ok found) (hclean : found.1 = [])
    (hpath : Seen nodes item path) : isSymlink nodes dst path = false := by
  unfold verifyItem at h
  unfold Seen at hpath
  cases hkind : item.kind with
  | file =>
      rw [hkind] at h hpath
      obtain rfl : path = item.rel := hpath
      exact verifyFile_clean h hclean
  | dir =>
      rw [hkind] at h hpath
      obtain ⟨names, hnames, rfl⟩ := hpath
      exact verifyTree_clean h hclean hnames

theorem seen_rel (item : CopyItem) : Seen nodes item item.rel := by
  unfold Seen
  cases item.kind with
  | file => rfl
  | dir => exact ⟨[], .inl rfl, rfl⟩

end Seen

section Contained

variable {machine : Machine} {nodes : List Node} {dst : ℕ} {items : List CopyItem} {path rel : List Name}
  {found : Found} {pre : Option (List (Text × Text))}

-- The link at a path below the destination leads to the source or below it.
def IntoSource (machine : Machine) (nodes : List Node) (dst : ℕ) (path : List Name) : Prop :=
  ∃ target budget place, linkAt nodes dst path = some target ∧
    resolve nodes budget [] (linkPath machine path target) = some place ∧ machine.source <:+ place

-- No link below the destination leads into the source, and no planned path is or leads through
-- a link.
structure Airtight (machine : Machine) (nodes : List Node) (dst : ℕ) (items : List CopyItem) : Prop where
  noneInto : ∀ path, ¬IntoSource machine nodes dst path
  plain : ∀ item ∈ items, ∀ place, place <:+ item.rel → linkAt nodes dst place = none

-- No link into the source is deeper than the entries of the destination and off the planned trees.
def NoneNested (machine : Machine) (nodes : List Node) (dst : ℕ) (items : List CopyItem) : Prop :=
  ∀ path, 2 ≤ path.length → (∀ item ∈ items, ¬Seen nodes item path) → ¬IntoSource machine nodes dst path

-- No directory of the destination that a planned path leads through is a link.
def PlainParents (nodes : List Node) (dst : ℕ) (items : List CopyItem) : Prop :=
  ∀ item ∈ items, ∀ place, place <:+ item.rel.tail → linkAt nodes dst place = none

theorem isSymlink_of_linkAt {target : Target} (h : linkAt nodes dst path = some target) :
    isSymlink nodes dst path = true := by
  cases path with
  | nil => cases h
  | cons name up => rw [isSymlink, lstat_of_linkAt h]

-- What `verify_copy` finds no fault with.
theorem of_verifyProblems (h : verifyProblems machine nodes dst items pre = .ok found) (hclean : found.1 = []) :
    (∀ item ∈ items, ∀ path, Seen nodes item path → linkAt nodes dst path = none) ∧
      (∀ name, ¬IntoSource machine nodes dst [name]) ∧ isDir nodes dst = true := by
  obtain ⟨planned, hplanned, h⟩ := bind_eq_ok.mp h
  obtain ⟨tensors, -, h⟩ := bind_eq_ok.mp h
  obtain ⟨names, hnames, h⟩ := bind_eq_ok.mp h
  obtain ⟨borrowed, hborrowed, h⟩ := bind_eq_ok.mp h
  obtain rfl : (planned.1 ++ tensors.1 ++ borrowed.1, planned.2) = found := Except.ok.inj h
  obtain ⟨hfront, hlast⟩ := List.append_eq_nil_iff.mp hclean
  obtain ⟨hfirst, -⟩ := List.append_eq_nil_iff.mp hfront
  have hself : stat nodes ⟨dst, []⟩ = some dst := walk_found rfl MAXSYMLINKS
  obtain ⟨listed, hlisted, rfl⟩ := map_eq_ok.mp hnames
  refine ⟨fun item hitem path hpath => ?_, fun name hinto => ?_, ?_⟩
  · obtain ⟨part, hpart, hnone⟩ := of_gather hplanned hfirst item hitem
    cases hlink : linkAt nodes dst path with
    | none => rfl
    | some target =>
        have hsymlink := isSymlink_of_linkAt hlink
        rw [verifyItem_clean hpart hnone hpath] at hsymlink
        cases hsymlink
  · obtain ⟨target, budget, place, hlink, hplace, hsource⟩ := hinto
    obtain ⟨i, hentry, hi⟩ := linkAt_eq_some.mp hlink
    obtain ⟨d, hroot, hentry⟩ := Option.bind_eq_some_iff.mp hentry
    obtain rfl : dst = d := by
      rw [realDir] at hroot
      split_ifs at hroot
      exact Option.some.inj hroot
    have hmem := mem_of_entry hlisted hself (Option.isSome_iff_exists.mpr ⟨i, hentry⟩)
    obtain ⟨part, hpart, hnone⟩ := of_gather hborrowed hlast name ((List.mem_insertionSort nameLe).mpr hmem)
    obtain ⟨into, hinto, hpart⟩ := bind_eq_ok.mp hpart
    rw [pointsInto, lstat_of_linkAt hlink] at hinto
    dsimp only at hinto
    split at hinto
    · rename_i place' hplace'
      cases hinto
      rw [resolve_unique hplace' hplace, decide_eq_true hsource] at hpart
      cases hpart
      cases hnone
    · cases hinto
  · rw [listDir, hself, Option.bind_some] at hlisted
    split at hlisted
    · rename_i parent entries hdir
      exact isDir_of_dir hdir
    · cases hlisted
    · cases hlisted

-- With no fault found, the rest is what decides.
theorem airtight_iff (h : verifyProblems machine nodes dst items pre = .ok found) (hclean : found.1 = []) :
    Airtight machine nodes dst items ↔ NoneNested machine nodes dst items ∧ PlainParents nodes dst items := by
  obtain ⟨hseen, htop, -⟩ := of_verifyProblems h hclean
  constructor
  · intro hself
    refine ⟨fun path _ _ => hself.noneInto path, fun item hitem place hplace => ?_⟩
    exact hself.plain item hitem place (hplace.trans (List.tail_suffix item.rel))
  · rintro ⟨hnested, hparents⟩
    refine ⟨fun path hinto => ?_, fun item hitem place hplace => ?_⟩
    · match path with
      | [] =>
          obtain ⟨target, -, -, hlink, -⟩ := hinto
          cases hlink
      | [name] => exact htop name hinto
      | name :: next :: up =>
          by_cases hnone : ∀ item ∈ items, ¬Seen nodes item (name :: next :: up)
          · exact hnested _ (by simp) hnone hinto
          · push Not at hnone
            obtain ⟨item, hitem, hplace⟩ := hnone
            obtain ⟨target, -, -, hlink, -⟩ := hinto
            rw [hseen item hitem _ hplace] at hlink
            cases hlink
    · cases hrel : item.rel with
      | nil =>
          rw [hrel] at hplace
          obtain rfl := List.suffix_nil.mp hplace
          rfl
      | cons name up =>
          rw [hrel] at hplace
          rcases List.suffix_cons_iff.mp hplace with rfl | hup
          · exact hrel ▸ hseen item hitem item.rel (seen_rel item)
          · exact hparents item hitem place (by rw [hrel]; exact hup)

end Contained

section Written

variable {machine : Machine} {before nodes : List Node} {dst : ℕ} {items : List CopyItem} {fs fs' : Fs}

-- More files or bytes have come since, and no links.
structure SameLinks (before nodes : List Node) : Prop where
  length_le : before.length ≤ nodes.length
  same : ∀ root < before.length, ∀ path, linkAt nodes root path = linkAt before root path

theorem SameLinks.openWriteStep {root : ℕ} {path : List Name} (h : SameLinks before fs.nodes)
    (hopen : openWriteStep root path fs = .ok fs') : SameLinks before fs'.nodes := by
  unfold Posix.openWriteStep at hopen
  split at hopen
  · cases hopen
  · rename_i d name hlocate
    split at hopen
    · have hcreate := Fs.change_eq_ok.mp hopen
      have hlength := (@addAt_effect fs.nodes fs'.nodes d name (.file []) trivial hcreate).1
      refine ⟨Nat.le_trans h.length_le hlength, fun root hroot path => ?_⟩
      have hlt := Nat.lt_of_lt_of_le hroot h.length_le
      exact (linkAt_createAt fs.wellFormed hcreate root hlt path).trans (h.same root hroot path)
    · have hwrite := Fs.change_eq_ok.mp hopen
      obtain ⟨bytes, -, hnodes⟩ := writeAt_eq_ok hwrite
      refine ⟨?_, fun root hroot path => (linkAt_writeAt hwrite root path).trans (h.same root hroot path)⟩
      rw [hnodes, List.length_set]
      exact h.length_le

theorem SameLinks.appendTo {i : ℕ} {bytes : List UInt8} (h : SameLinks before fs.nodes)
    (happend : appendTo i bytes fs = .ok fs') : SameLinks before fs'.nodes := by
  have hwrite := Fs.change_eq_ok.mp happend
  obtain ⟨bytes, -, hnodes⟩ := writeAt_eq_ok hwrite
  refine ⟨?_, fun root hroot path => (linkAt_writeAt hwrite root path).trans (h.same root hroot path)⟩
  rw [hnodes, List.length_set]
  exact h.length_le

theorem keeps_writeProvenance (prov : List Prov) :
    Program.Keeps (fun fs => SameLinks before fs.nodes) (writeProvenance machine dst prov) := by
  have hopen : Program.Keeps (fun fs => SameLinks before fs.nodes) (openWrite dst [PROVENANCE]) :=
    .act (fun _ _ h hstep => ⟨h.openWriteStep hstep, h.openWriteStep hstep⟩) (fun _ _ _ hpart => hpart.elim) fun _ h => h
  refine hopen.seq fun _ => (Program.Keeps.read _ _).seq fun i => ?_
  refine .act (fun _ _ h hstep => ⟨h.appendTo hstep, h.appendTo hstep⟩) (fun _ _ h hpart => ?_) fun _ h => h
  obtain ⟨written, -, hstep⟩ := hpart
  exact h.appendTo hstep

theorem SameLinks.intoSource_iff (h : SameLinks before nodes) (hdst : dst < before.length) (path : List Name) :
    IntoSource machine nodes dst path ↔ IntoSource machine before dst path := by
  have htop := h.same 0 (Nat.zero_lt_of_lt hdst)
  simp only [IntoSource, h.same dst hdst, resolve_congr htop]

theorem SameLinks.airtight_iff (h : SameLinks before nodes) (hdst : dst < before.length) :
    Airtight machine nodes dst items ↔ Airtight machine before dst items := by
  constructor
  · intro hself
    refine ⟨fun path hinto => hself.noneInto path ((h.intoSource_iff hdst path).mpr hinto), fun item hitem place hplace => ?_⟩
    rw [← h.same dst hdst]
    exact hself.plain item hitem place hplace
  · intro hself
    refine ⟨fun path hinto => hself.noneInto path ((h.intoSource_iff hdst path).mp hinto), fun item hitem place hplace => ?_⟩
    rw [h.same dst hdst]
    exact hself.plain item hitem place hplace

end Written

section Runs

variable {machine : Machine} {fs fs' mid : Fs} {dst source : ℕ} {plan : CopyPlan} {report : CopyReport}
  {pre : Option (List (Text × Text))} {write : Bool}

theorem verifyCopy_eq_ok (h : (verifyCopy machine plan pre write).exec fs = (.ok report, fs')) (hok : report.ok = true) :
    (∃ found, verifyProblems machine fs.nodes plan.dst plan.items pre = .ok found ∧ found.1 = []) ∧
      SameLinks fs.nodes fs'.nodes := by
  obtain ⟨found, hfound, h⟩ := Program.exec_read_seq_ok.mp h
  obtain ⟨u, m, hwrite, hreport⟩ := Program.exec_seq_ok.mp h
  obtain ⟨heq, rfl⟩ := Prod.mk.inj hreport
  obtain rfl := Except.ok.inj heq
  refine ⟨⟨found, hfound, List.isEmpty_iff.mp hok⟩, ?_⟩
  have hstart : SameLinks fs.nodes fs.nodes := ⟨Nat.le_refl _, fun _ _ _ => rfl⟩
  cases write with
  | true => exact (keeps_writeProvenance _).returns fs u m hstart ((Program.ends_ok_iff _).mpr hwrite)
  | false =>
      obtain ⟨-, rfl⟩ := Prod.mk.inj hwrite
      exact hstart

-- A clean verdict leaves open what was not looked at.
theorem verifyCopy_airtight_iff (h : (verifyCopy machine plan pre write).exec fs = (.ok report, fs'))
    (hok : report.ok = true) :
    Airtight machine fs'.nodes plan.dst plan.items ↔
      NoneNested machine fs.nodes plan.dst plan.items ∧ PlainParents fs.nodes plan.dst plan.items := by
  obtain ⟨⟨found, hfound, hclean⟩, hsame⟩ := verifyCopy_eq_ok h hok
  obtain ⟨-, -, hdir⟩ := of_verifyProblems hfound hclean
  rw [hsame.airtight_iff (isDir_lt hdir)]
  exact airtight_iff hfound hclean

theorem sweepItem_rel {name : Name} {items : List CopyItem} {nodes : List Node}
    (h : sweepItem machine nodes dst name = .ok items) : ∀ item ∈ items, item.rel = [name] := by
  intro item hitem
  unfold sweepItem at h
  split at h
  · cases h
  · cases h
    cases hitem
  · split at h
    · rename_i target htarget
      dsimp only at h
      by_cases habsolute : target.absolute = true
      · rw [if_pos habsolute] at h
        cases h
        rw [List.mem_singleton.mp hitem]
      · rw [if_neg habsolute] at h
        split at h
        · cases h
          rw [List.mem_singleton.mp hitem]
        · cases h
    · cases h
      cases hitem

theorem planSymlinkSweep_rel {items : List CopyItem} {nodes : List Node}
    (h : planSymlinkSweep machine nodes dst = .ok items) : ∀ item ∈ items, ∃ name, item.rel = [name] := by
  intro item hitem
  obtain ⟨names, -, h⟩ := bind_eq_ok.mp h
  obtain ⟨swept, hswept, h⟩ := bind_eq_ok.mp h
  obtain rfl : swept.flatten = items := Except.ok.inj h
  obtain ⟨part, hpart, hmem⟩ := List.mem_flatten.mp hitem
  obtain ⟨name, -, hname⟩ := exists_of_mem_right (mapM_eq_ok.mp hswept) hpart
  exact ⟨name, sweepItem_rel hname item hmem⟩

theorem linkAt_of_realDir {nodes : List Node} {root d : ℕ} {path : List Name} (h : realDir nodes root path = some d) :
    linkAt nodes root path = none := by
  cases path with
  | nil => rfl
  | cons name up =>
      obtain ⟨e, hup, hentry, hdir⟩ := realDir_cons.mp h
      obtain ⟨parent, entries, hd⟩ := isDir_iff.mp hdir
      rw [linkAt, realEntry, hup, Option.bind_some, hentry, Option.bind_some, hd]

-- After the copy every planned path leads through directories.
theorem assemble_eq_ok {pre : List (Text × Text)} (hroot : isDir fs.nodes dst = true)
    (h : (assemble machine dst source).exec fs = (.ok (.ok (plan, pre)), mid)) :
    plan.dst = dst ∧ PlainParents mid.nodes dst plan.items := by
  obtain ⟨planned, hplanned, h⟩ := Program.exec_read_seq_ok.mp h
  cases planned with
  | error e =>
      obtain ⟨heq, -⟩ := Prod.mk.inj h
      cases heq
  | ok fixed =>
      obtain ⟨rfl, -⟩ := planCopy_eq_ok (Except.ok.inj hplanned)
      obtain ⟨hashes, -, h⟩ := Program.exec_read_seq_ok.mp h
      obtain ⟨u, copied, hcopied, h⟩ := Program.exec_seq_ok.mp h
      obtain ⟨sweep, hsweep, h⟩ := Program.exec_read_seq_ok.mp h
      obtain ⟨u', swept, hswept, h⟩ := Program.exec_seq_ok.mp h
      obtain ⟨heq, rfl⟩ := Prod.mk.inj h
      obtain ⟨rfl, -⟩ := Prod.mk.inj (Except.ok.inj (Except.ok.inj heq))
      have hstart : Dirs fs.nodes dst (fun path => path = []) fs := by
        refine ⟨Frame.refl _ _, fun _ _ hnone => hnone.elim, ?_⟩
        rintro path rfl
        exact ⟨dst, realDir_nil hroot⟩
      have hfixed := (@dirs_executeCopy fs.nodes (fun path => path = []) machine.limit
        ⟨inventory ⟨source, []⟩, dst, source⟩ (fun item hitem => rel_ne_nil hitem) rfl).returns fs u copied hstart
        ((Program.ends_ok_iff _).mpr hcopied)
      have hrels := planSymlinkSweep_rel hsweep
      have hdirs : Dirs fs.nodes dst
          (fun path => path = [] ∨ ∃ item ∈ inventory ⟨source, []⟩, path = item.rel.tail) swept := by
        split_ifs at hswept with hnone
        · obtain ⟨-, rfl⟩ := Prod.mk.inj hswept
          exact hfixed
        · have hmore := (@dirs_executeCopy fs.nodes
            (fun path => path = [] ∨ ∃ item ∈ inventory ⟨source, []⟩, path = item.rel.tail) machine.limit
            ⟨sweep, dst, source⟩ (fun item hitem => ?_) (.inl rfl)).returns copied u' swept hfixed
            ((Program.ends_ok_iff _).mpr hswept)
          · exact hmore.mono_dirs fun _ => .inl
          · obtain ⟨name, hname⟩ := hrels item hitem
            rw [hname]
            exact List.cons_ne_nil _ _
      refine ⟨rfl, fun item hitem place hplace => ?_⟩
      have htail : item.rel.tail = [] ∨ ∃ other ∈ inventory ⟨source, []⟩, item.rel.tail = other.rel.tail := by
        rcases List.mem_append.mp hitem with hitem | hitem
        · exact .inr ⟨item, hitem, rfl⟩
        · obtain ⟨name, hname⟩ := hrels item hitem
          rw [hname]
          exact .inl rfl
      obtain ⟨d, hd⟩ := hdirs.dirs item.rel.tail htail
      obtain ⟨e, he⟩ := realDir_suffix hd hplace
      exact linkAt_of_realDir he

end Runs

section Sample

-- A destination whose own transformer directory has a link to a file of the source.
def borrowedNodes : List Node :=
  [folder 0 [(base, 1), (dist, 2)],
    folder 0 (SHARED_DIRS.zip [4, 5, 6, 7, 8] ++ ROOT_FILES.map (fun f => (f, 3)) ++
      [(transformer, 9), (assets, 10)]),
    folder 0 [(transformer, 11)], .file [1, 2, 3], folder 1 [], folder 1 [], folder 1 [], folder 1 [], folder 1 [],
    folder 1 [], folder 1 (ASSET_FILES.map fun a => (a, 3)), folder 2 [(config, 12)],
    .link ⟨true, [.name base, .name config]⟩]

theorem borrowedNodes_ordered : Ordered borrowedNodes := by decide +kernel

def borrowedFs : Fs := ⟨borrowedNodes, borrowedNodes_ordered.wellFormed⟩

def sampleMachine : Machine where
  dst := [dist]
  source := [base]
  sha256 := List.map UInt8.toUInt16
  readText := List.map UInt8.toUInt16
  hashAllTensors _ := .ok []
  render _ := [123, 125, 10]
  baseRef := ascii "/data/models/"
  limit := 4

def leadsInto (machine : Machine) (nodes : List Node) (dst : ℕ) (path : List Name) : Bool :=
  (linkAt nodes dst path).any fun target =>
    (resolve nodes machine.limit [] (linkPath machine path target)).any fun place => decide (machine.source <:+ place)

theorem intoSource_of_leadsInto {machine : Machine} {nodes : List Node} {dst : ℕ} {path : List Name}
    (h : leadsInto machine nodes dst path = true) : IntoSource machine nodes dst path := by
  unfold leadsInto at h
  cases hlink : linkAt nodes dst path with
  | none =>
      rw [hlink] at h
      cases h
  | some target =>
      rw [hlink, Option.any_some] at h
      cases hplace : resolve nodes machine.limit [] (linkPath machine path target) with
      | none =>
          rw [hplace] at h
          cases h
      | some place =>
          rw [hplace, Option.any_some] at h
          exact ⟨target, machine.limit, place, hlink, hplace, of_decide_eq_true h⟩

def reportsOk (result : Except OsError (Except CopyError CopyReport)) : Bool :=
  match result with
  | .ok (.ok report) => report.ok
  | _ => false

theorem borrowedFs_run : ∃ report fs',
    (makeSelfContained sampleMachine 2 1 true).exec borrowedFs = (.ok (.ok report), fs') ∧ report.ok = true ∧
      IntoSource sampleMachine fs'.nodes 2 [config, transformer] := by
  have hends : (reportsOk ((makeSelfContained sampleMachine 2 1 true).exec borrowedFs).1 &&
      leadsInto sampleMachine ((makeSelfContained sampleMachine 2 1 true).exec borrowedFs).2.nodes 2
        [config, transformer]) = true := by decide +kernel
  cases hrun : (makeSelfContained sampleMachine 2 1 true).exec borrowedFs with
  | mk result fs' =>
      rw [hrun] at hends
      obtain ⟨hok, hinto⟩ := Bool.and_eq_true_iff.mp hends
      cases result with
      | error e => cases hok
      | ok outcome =>
          cases outcome with
          | error e => cases hok
          | ok report => exact ⟨report, fs', rfl, hok, intoSource_of_leadsInto hinto⟩

end Sample

section Runs

-- With a clean verdict, the destination has no link into the source if and only if it has none
-- at a place that the plan does not know, and for `verify_copy` alone no parent that is a link.
theorem selfContained_iff_noneNested (machine : Machine) (fs fs' : Fs) (report : CopyReport) (hok : report.ok = true) :
    (∀ plan pre write, (verifyCopy machine plan pre write).exec fs = (.ok report, fs') →
      (Airtight machine fs'.nodes plan.dst plan.items ↔
        NoneNested machine fs.nodes plan.dst plan.items ∧ PlainParents fs.nodes plan.dst plan.items)) ∧
    ∀ dst source plan pre mid, isDir fs.nodes dst = true →
      (assemble machine dst source).exec fs = (.ok (.ok (plan, pre)), mid) →
      (makeSelfContained machine dst source true).exec fs = (.ok (.ok report), fs') →
      (Airtight machine fs'.nodes dst plan.items ↔ NoneNested machine mid.nodes dst plan.items) := by
  refine ⟨fun plan pre write h => verifyCopy_airtight_iff h hok, fun dst source plan pre mid hroot hassemble h => ?_⟩
  obtain ⟨rfl, hparents⟩ := assemble_eq_ok hroot hassemble
  obtain ⟨assembled, m, hfirst, h⟩ := Program.exec_seq_ok.mp h
  obtain ⟨heq, rfl⟩ := Prod.mk.inj (hassemble.symm.trans hfirst)
  obtain rfl := Except.ok.inj heq
  obtain ⟨verified, m', hverify, h⟩ := Program.exec_seq_ok.mp h
  obtain ⟨heq, rfl⟩ := Prod.mk.inj h
  obtain rfl := Except.ok.inj (Except.ok.inj heq)
  rw [verifyCopy_airtight_iff hverify hok]
  exact and_iff_left hparents

-- The link of the transformer directory is seen by no check.
theorem clean_verdict_with_link : ∃ report fs',
    (makeSelfContained sampleMachine 2 1 true).exec borrowedFs = (.ok (.ok report), fs') ∧ report.ok = true ∧
      ∃ path, IntoSource sampleMachine fs'.nodes 2 path := by
  obtain ⟨report, fs', hrun, hok, hinto⟩ := borrowedFs_run
  exact ⟨report, fs', hrun, hok, _, hinto⟩

theorem selfContained_iff_noneNested_borrowedFs : ∃ plan pre mid,
    (assemble sampleMachine 2 1).exec borrowedFs = (.ok (.ok (plan, pre)), mid) ∧
      ¬NoneNested sampleMachine mid.nodes 2 plan.items := by
  obtain ⟨report, fs', hrun, hok, hinto⟩ := borrowedFs_run
  obtain ⟨assembled, mid, hassemble, hrest⟩ := Program.exec_seq_ok.mp hrun
  cases assembled with
  | error e =>
      obtain ⟨heq, -⟩ := Prod.mk.inj hrest
      cases heq
  | ok result =>
      obtain ⟨plan, pre⟩ := result
      have hiff := (selfContained_iff_noneNested sampleMachine borrowedFs fs' report hok).2 2 1 plan pre mid
        (by decide +kernel) hassemble hrun
      exact ⟨plan, pre, mid, hassemble, fun hnone => (hiff.mpr hnone).noneInto _ hinto⟩

end Runs

end Cosmos3.SelfContained
