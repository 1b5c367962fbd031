import Cosmos3.Basis.Posix

namespace Basis.Posix

section Real

variable (nodes : List Node) (root : ℕ)

def fileAt (i : ℕ) : Option (List UInt8) :=
  match nodes[i]? with
  | some (.file bytes) => some bytes
  | _ => none

-- The directory at a path below the root, its last name first, with no link on the way.
def realDir : List Name → Option ℕ
  | [] => if isDir nodes root then some root else none
  | name :: up => (realDir up).bind fun d => (entryOf nodes d name).filter (isDir nodes)

def realEntry : List Name → Option ℕ
  | [] => none
  | name :: up => (realDir nodes root up).bind fun d => entryOf nodes d name

-- The bytes of the regular file there.
def realFile (path : List Name) : Option (List UInt8) := (realEntry nodes root path).bind (fileAt nodes)

-- The same path for a walk, its first name first.
def parts (path : List Name) : List Component := path.reverse.map .name

end Real

section Tree

variable {nodes nodes' : List Node} {root d e i : ℕ} {name : Name} {up path other : List Name}

theorem realDir_cons : realDir nodes root (name :: up) = some i ↔
    ∃ d, realDir nodes root up = some d ∧ entryOf nodes d name = some i ∧ isDir nodes i = true := by
  rw [realDir, Option.bind_eq_some_iff]
  simp only [Option.filter_eq_some_iff]

theorem isDir_of_realDir (h : realDir nodes root path = some d) : isDir nodes d = true := by
  cases path with
  | nil =>
      rw [realDir] at h
      split_ifs at h with hroot
      cases h
      exact hroot
  | cons name up =>
      obtain ⟨-, -, -, hdir⟩ := realDir_cons.mp h
      exact hdir

theorem realDir_nil (h : isDir nodes root = true) : realDir nodes root [] = some root := if_pos h

theorem isDir_root_of_realDir (h : realDir nodes root path = some d) : isDir nodes root = true := by
  induction path generalizing d with
  | nil =>
      rw [realDir] at h
      split_ifs at h with hroot
      exact hroot
  | cons name up ih =>
      obtain ⟨e, hup, -⟩ := realDir_cons.mp h
      exact ih hup

-- No directory below the root has the root for an entry.
theorem rank_le_of_realDir {rank : ℕ → ℕ}
    (hrank : ∀ d name i, entryOf nodes d name = some i → isDir nodes i = true → rank d < rank i)
    (h : realDir nodes root path = some d) : rank root ≤ rank d := by
  induction path generalizing d with
  | nil =>
      rw [realDir] at h
      split_ifs at h
      cases h
      exact Nat.le_refl _
  | cons name up ih =>
      obtain ⟨e, hup, hentry, hdir⟩ := realDir_cons.mp h
      have hle := ih hup
      have hlt := hrank e name d hentry hdir
      omega

-- A directory is at one path only.
theorem realDir_inj (wf : WellFormed nodes) (h : realDir nodes root path = some d)
    (h' : realDir nodes root other = some d) : path = other := by
  obtain ⟨rank, hrank⟩ := wf.ranked
  have hroot : ∀ {name : Name} {up : List Name}, realDir nodes root (name :: up) ≠ some root := by
    intro name up hcycle
    obtain ⟨e, hup, hentry, hdir⟩ := realDir_cons.mp hcycle
    have hle := rank_le_of_realDir hrank hup
    have hlt := hrank e name root hentry hdir
    omega
  have hnil : ∀ {d : ℕ}, realDir nodes root [] = some d → d = root := by
    intro d hd
    rw [realDir] at hd
    split_ifs at hd
    exact (Option.some.inj hd).symm
  induction path generalizing d other with
  | nil =>
      obtain rfl := hnil h
      cases other with
      | nil => rfl
      | cons name up => exact absurd h' hroot
  | cons name up ih =>
      cases other with
      | nil =>
          obtain rfl := hnil h'
          exact absurd h hroot
      | cons name' up' =>
          obtain ⟨e, hup, hentry, hdir⟩ := realDir_cons.mp h
          obtain ⟨e', hup', hentry', -⟩ := realDir_cons.mp h'
          obtain ⟨parent, entries, hd⟩ := isDir_iff.mp hdir
          have he := wf.parent e name d parent entries hentry hd
          have he' := wf.parent e' name' d parent entries hentry' hd
          obtain rfl : e = e' := he.symm.trans he'
          rw [ih hup hup', wf.single e name name' d hentry hentry' hdir]

theorem advance_append {front back : List Component} (h : advance nodes d front = .found e) :
    advance nodes d (front ++ back) = advance nodes e back := by
  induction front generalizing d with
  | nil =>
      obtain rfl : d = e := Stop.found.inj h
      rfl
  | cons component front ih =>
      rw [advance.eq_def] at h
      rw [List.cons_append, advance.eq_def]
      dsimp only at h ⊢
      split at h
      · cases component with
        | self => exact ih h
        | up => exact ih h
        | name name =>
            dsimp only at h ⊢
            split at h
            · cases h
            · split at h
              · cases h
              · exact ih h
      · cases h

theorem advance_dir (hentry : entryOf nodes d name = some i) (hi : isDir nodes i = true) :
    advance nodes d [.name name] = .found i := by
  obtain ⟨parent, entries, hd⟩ := isDir_iff.mp (isDir_of_entryOf hentry)
  obtain ⟨parent', entries', hi⟩ := isDir_iff.mp hi
  rw [entryOf_dir hd] at hentry
  rw [advance, hd]
  simp only [hentry, hi]
  rfl

theorem advance_realDir (h : realDir nodes root path = some d) :
    advance nodes root (parts path) = .found d := by
  induction path generalizing d with
  | nil =>
      rw [realDir] at h
      split_ifs at h
      cases h
      rfl
  | cons name up ih =>
      obtain ⟨e, hup, hentry, hdir⟩ := realDir_cons.mp h
      rw [parts, List.reverse_cons, List.map_append]
      exact (advance_append (ih hup)).trans (advance_dir hentry hdir)

theorem walk_realDir (h : realDir nodes root path = some d) (budget : ℕ) :
    walk nodes budget root (parts path) = some d := by
  cases budget with
  | zero => rw [walk, advance_realDir h]
  | succ budget => rw [walk, advance_realDir h]

end Tree

section Effects

variable {nodes nodes' : List Node} {root d i : ℕ} {name newName : Name} {up : List Name}
  {change : List UInt8 → List UInt8}

-- What a change of one directory below a root leaves as it was.
structure Changed (nodes nodes' : List Node) (root d : ℕ) : Prop where
  length_le : nodes.length ≤ nodes'.length
  kept : ∀ i < nodes.length, i ≠ d → nodes'[i]? = nodes[i]?
  dirs : ∀ path e, realDir nodes root path = some e → realDir nodes' root path = some e
  within : ∀ path e, realDir nodes' root path = some e →
    realDir nodes root path = some e ∨ nodes.length ≤ e

theorem Changed.of_realDir_eq (hlength : nodes.length ≤ nodes'.length)
    (hkept : ∀ i < nodes.length, i ≠ d → nodes'[i]? = nodes[i]?)
    (hdirs : ∀ path, realDir nodes' root path = realDir nodes root path) : Changed nodes nodes' root d :=
  ⟨hlength, hkept, fun path _ h => (hdirs path).trans h, fun path _ h => .inl ((hdirs path).symm.trans h)⟩

theorem realDir_congr (hroot : isDir nodes' root = isDir nodes root)
    (h : ∀ e name, (entryOf nodes' e name).filter (isDir nodes') = (entryOf nodes e name).filter (isDir nodes))
    (path : List Name) : realDir nodes' root path = realDir nodes root path := by
  induction path with
  | nil => rw [realDir, realDir, hroot]
  | cons name up ih =>
      rw [realDir, realDir, ih]
      exact congrArg _ (funext fun e => h e name)

-- The files at other paths, when names of one directory change.
theorem realFile_congr {names : List Name} (wf : WellFormed nodes) (hup : realDir nodes root up = some d)
    (hdirs : ∀ path, realDir nodes' root path = realDir nodes root path)
    (hentry : ∀ e name, e ≠ d ∨ name ∉ names → entryOf nodes' e name = entryOf nodes e name)
    (hfile : ∀ i < nodes.length, fileAt nodes' i = fileAt nodes i) {path : List Name}
    (hpath : ∀ name ∈ names, path ≠ name :: up) : realFile nodes' root path = realFile nodes root path := by
  have hsame : realEntry nodes' root path = realEntry nodes root path := by
    cases path with
    | nil => rfl
    | cons other up' =>
        rw [realEntry, realEntry, hdirs]
        cases hup' : realDir nodes root up' with
        | none => rfl
        | some e =>
            refine hentry e other ?_
            by_cases he : e = d
            · obtain rfl := realDir_inj wf hup' (he ▸ hup)
              exact .inr fun hmem => hpath other hmem rfl
            · exact .inl he
  rw [realFile, realFile, hsame]
  cases hold : realEntry nodes root path with
  | none => rfl
  | some i =>
      refine hfile i ?_
      cases path with
      | nil => cases hold
      | cons other up' =>
          obtain ⟨e, -, hentry⟩ := Option.bind_eq_some_iff.mp hold
          exact wf.closed e other i hentry

theorem fileAt_set {parent : ℕ} {entries entries' : Entries} (h : nodes[d]? = some (.dir parent entries)) (i : ℕ) :
    fileAt (nodes.set d (.dir parent entries')) i = fileAt nodes i := by
  unfold fileAt
  by_cases heq : i = d
  · rw [heq, List.getElem?_set_self (List.getElem?_eq_some_iff.mp h).1, h]
  · rw [List.getElem?_set_ne (Ne.symm heq)]

-- The names of directories stay, those of other entries change as they may.
theorem filter_entryOf_set {parent : ℕ} {entries entries' : Entries}
    (h : nodes[d]? = some (.dir parent entries))
    (hentries : ∀ name, (entries'.lookup name).filter (isDir nodes) = (entries.lookup name).filter (isDir nodes))
    (e : ℕ) (name : Name) :
    (entryOf (nodes.set d (.dir parent entries')) e name).filter (isDir (nodes.set d (.dir parent entries'))) =
      (entryOf nodes e name).filter (isDir nodes) := by
  rw [funext (isDir_set h), entryOf_set h]
  by_cases he : e = d
  · rw [if_pos he, hentries, he, entryOf_dir h]
  · rw [if_neg he]

theorem filter_of_file {lookup : Option ℕ} (h : ∀ i, lookup = some i → isDir nodes i = false) :
    lookup.filter (isDir nodes) = none := by
  cases lookup with
  | none => rfl
  | some i => rw [Option.filter_some, h i rfl]; rfl

theorem unlinkAt_effect (wf : WellFormed nodes) (hup : realDir nodes root up = some d)
    (h : unlinkAt nodes d name = .ok nodes') :
    Changed nodes nodes' root d ∧ entryOf nodes' d name = none ∧
      ∀ path, path ≠ name :: up → realFile nodes' root path = realFile nodes root path := by
  obtain ⟨parent, entries, j, hd, hj, hfile, rfl⟩ := unlinkAt_eq_ok h
  have hfilter : ∀ other, ((entries.erase name).lookup other).filter (isDir nodes) =
      (entries.lookup other).filter (isDir nodes) := by
    intro other
    by_cases heq : other = name
    · rw [heq, AList.lookup_erase, hj]
      exact (filter_of_file fun i hi => by cases hi; exact hfile).symm
    · rw [AList.lookup_erase_ne heq]
  have hdirs := realDir_congr (isDir_set hd root) (filter_entryOf_set hd hfilter)
  refine ⟨.of_realDir_eq (Nat.le_of_eq List.length_set.symm)
    (fun i _ hi => List.getElem?_set_ne (Ne.symm hi)) hdirs, ?_, fun path hpath => ?_⟩
  · rw [entryOf_set hd, if_pos rfl, AList.lookup_erase]
  · refine @realFile_congr _ _ root d up [name] wf hup hdirs (fun e other hother => ?_)
      (fun i _ => fileAt_set hd i) path (by simpa using hpath)
    rw [entryOf_set hd]
    by_cases he : e = d
    · have hne : other ≠ name := by simpa [he] using hother
      rw [if_pos he, AList.lookup_erase_ne hne, he, entryOf_dir hd]
    · rw [if_neg he]

theorem renameAt_effect (wf : WellFormed nodes) (hup : realDir nodes root up = some d)
    (h : renameAt nodes d name newName = .ok nodes') :
    Changed nodes nodes' root d ∧
      realFile nodes' root (newName :: up) = realFile nodes root (name :: up) ∧
      ∀ path, path ≠ name :: up → path ≠ newName :: up → realFile nodes' root path = realFile nodes root path := by
  obtain ⟨parent, entries, i, hd, hi, hfile, hnew, ⟨hsame, rfl⟩ | rfl⟩ := renameAt_eq_ok h
  · have hentry : realEntry nodes' root (newName :: up) = realEntry nodes' root (name :: up) := by
      rw [realEntry, realEntry, hup, Option.bind_some, Option.bind_some, entryOf_dir hd, entryOf_dir hd, hi, hsame]
    refine ⟨.of_realDir_eq (Nat.le_refl _) (fun _ _ _ => rfl) fun _ => rfl, ?_, fun _ _ _ => rfl⟩
    rw [realFile, realFile, hentry]
  · have hfilter : ∀ other, (((entries.erase name).insert newName i).lookup other).filter (isDir nodes) =
        (entries.lookup other).filter (isDir nodes) := by
      intro other
      by_cases hother : other = newName
      · rw [hother, AList.lookup_insert, filter_of_file hnew,
          filter_of_file fun j hj => by rwa [← Option.some.inj hj]]
      · rw [AList.lookup_insert_ne hother]
        by_cases heq : other = name
        · rw [heq, AList.lookup_erase, hi]
          exact (filter_of_file fun j hj => by cases hj; exact hfile).symm
        · rw [AList.lookup_erase_ne heq]
    have hdirs := realDir_congr (isDir_set hd root) (filter_entryOf_set hd hfilter)
    refine ⟨.of_realDir_eq (Nat.le_of_eq List.length_set.symm)
      (fun j _ hj => List.getElem?_set_ne (Ne.symm hj)) hdirs, ?_, fun path hpath hpath' => ?_⟩
    · rw [realFile, realFile, realEntry, realEntry, hdirs, hup, Option.bind_some, Option.bind_some, entryOf_set hd,
        if_pos rfl, AList.lookup_insert, entryOf_dir hd, hi, Option.bind_some, Option.bind_some, fileAt_set hd]
    · refine @realFile_congr _ _ root d up [name, newName] wf hup hdirs (fun e other hother => ?_)
        (fun j _ => fileAt_set hd j) path (by simpa using ⟨hpath, hpath'⟩)
      rw [entryOf_set hd]
      by_cases he : e = d
      · have hother : other ≠ name ∧ other ≠ newName := by simpa [he] using hother
        rw [if_pos he, AList.lookup_insert_ne hother.2, AList.lookup_erase_ne hother.1, he, entryOf_dir hd]
      · rw [if_neg he]

-- A new node is at its name, and nothing else can tell.
theorem addAt_effect {node : Node} (hnode : node.Bare) (h : addAt nodes d name node = .ok nodes') :
    nodes.length ≤ nodes'.length ∧ (∀ i < nodes.length, i ≠ d → nodes'[i]? = nodes[i]?) ∧
      nodes'[nodes.length]? = some node ∧ entryOf nodes d name = none ∧
      (∀ i < nodes.length, isDir nodes' i = isDir nodes i ∧ fileAt nodes' i = fileAt nodes i) ∧
      ∀ e other, entryOf nodes' e other =
        if e = d ∧ other = name then some nodes.length else entryOf nodes e other := by
  obtain ⟨parent, entries, hd, hname, rfl⟩ := addAt_eq_ok h
  have hlength : (nodes.set d (.dir parent (entries.insert name nodes.length))).length = nodes.length :=
    List.length_set
  have hleft : ∀ i < nodes.length, (nodes.set d (.dir parent (entries.insert name nodes.length)) ++ [node])[i]? =
      (nodes.set d (.dir parent (entries.insert name nodes.length)))[i]? := fun i hi =>
    List.getElem?_append_left (Nat.lt_of_lt_of_le hi (Nat.le_of_eq hlength.symm))
  refine ⟨by simp, fun i hi hne => ?_, ?_, (entryOf_dir hd).trans hname, fun i hi => ⟨?_, ?_⟩,
    entryOf_add hnode hd⟩
  · rw [hleft i hi, List.getElem?_set_ne (Ne.symm hne)]
  · rw [List.getElem?_append_right (Nat.le_of_eq hlength), hlength, Nat.sub_self]
    rfl
  · rw [isDir, hleft i hi]
    exact isDir_set hd i
  · rw [fileAt, hleft i hi]
    exact fileAt_set hd i

-- A new file is no directory.
theorem filter_entryOf_createAt (wf : WellFormed nodes) (h : createAt nodes d name = .ok nodes') (e : ℕ) (other : Name) :
    (entryOf nodes' e other).filter (isDir nodes') = (entryOf nodes e other).filter (isDir nodes) := by
  obtain ⟨-, -, hlast, hnew, hold, hentry⟩ := @addAt_effect nodes nodes' d name (.file []) trivial h
  rw [hentry]
  split_ifs with hboth
  · rw [hboth.1, hboth.2, hnew]
    exact filter_of_file fun i hi => by cases hi; rw [isDir, hlast]
  · cases hlookup : entryOf nodes e other with
    | none => rfl
    | some i =>
        rw [Option.filter_some, Option.filter_some, (hold i (wf.closed e other i hlookup)).1]

theorem createAt_effect (wf : WellFormed nodes) (hup : realDir nodes root up = some d)
    (h : createAt nodes d name = .ok nodes') :
    Changed nodes nodes' root d ∧ entryOf nodes' d name = some nodes.length ∧
      fileAt nodes' nodes.length = some [] ∧
      (∀ e other, entryOf nodes' e other = some nodes.length → e = d ∧ other = name) ∧
      ∀ path, path ≠ name :: up → realFile nodes' root path = realFile nodes root path := by
  obtain ⟨hlength, hkept, hlast, hnew, hold, hentry⟩ := @addAt_effect nodes nodes' d name (.file []) trivial h
  have hroot := isDir_lt (isDir_root_of_realDir hup)
  have hdirs := realDir_congr (hold root hroot).1 (filter_entryOf_createAt wf h)
  refine ⟨.of_realDir_eq hlength hkept hdirs, ?_, by rw [fileAt, hlast], fun e other hsole => ?_,
    fun path hpath => ?_⟩
  · rw [hentry, if_pos ⟨rfl, rfl⟩]
  · rw [hentry] at hsole
    split_ifs at hsole with hboth
    · exact hboth
    · exact absurd (wf.closed e other _ hsole) (Nat.lt_irrefl _)
  · refine @realFile_congr _ _ root d up [name] wf hup hdirs (fun e other hother => ?_)
      (fun i hi => (hold i hi).2) path (by simpa using hpath)
    rw [hentry, if_neg]
    rintro ⟨rfl, rfl⟩
    simp at hother

theorem makeDirAt_effect (wf : WellFormed nodes) (hup : realDir nodes root up = some d)
    (h : makeDirAt nodes d name = .ok nodes') :
    Changed nodes nodes' root d ∧ realDir nodes' root (name :: up) = some nodes.length ∧
      ∀ path, realFile nodes' root path = realFile nodes root path := by
  obtain ⟨hlength, hkept, hlast, hnew, hold, hentry⟩ := @addAt_effect nodes nodes' d name (.dir d ∅) rfl h
  have hdir : isDir nodes' nodes.length = true := isDir_of_dir hlast
  have hroot := isDir_lt (isDir_root_of_realDir hup)
  have hd : d < nodes.length := isDir_lt (isDir_of_realDir hup)
  have hnone : realDir nodes root (name :: up) = none := by
    rw [realDir, hup, Option.bind_some, hnew]
    rfl
  have hempty : ∀ other, entryOf nodes' nodes.length other = none := by
    intro other
    rw [hentry, if_neg fun hboth => Nat.ne_of_lt hd hboth.1.symm]
    exact Option.eq_none_iff_forall_ne_some.mpr fun i hi => Nat.lt_irrefl _ (entryOf_lt hi)
  have hdirs : ∀ path, realDir nodes' root path =
      if path = name :: up then some nodes.length else realDir nodes root path := by
    intro path
    induction path with
    | nil => rw [if_neg (by simp), realDir, realDir, (hold root hroot).1]
    | cons other up' ih =>
        rw [realDir, ih]
        by_cases hup' : up' = name :: up
        · have hlonger : other :: name :: up ≠ name :: up := fun heq => by simpa using congrArg List.length heq
          rw [if_pos hup', Option.bind_some, hempty, hup', if_neg hlonger, realDir, hnone]
          rfl
        · rw [if_neg hup', realDir]
          cases hold' : realDir nodes root up' with
          | none =>
              have hother : other :: up' ≠ name :: up := fun heq => by
                rw [(List.cons.inj heq).2, hup] at hold'
                cases hold'
              rw [if_neg hother]
              rfl
          | some e =>
              rw [Option.bind_some, hentry]
              by_cases hboth : e = d ∧ other = name
              · obtain rfl := realDir_inj wf hold' (hboth.1 ▸ hup)
                rw [if_pos hboth, hboth.2, if_pos rfl, Option.filter_some, hdir]
                rfl
              · have hother : other :: up' ≠ name :: up := fun heq => by
                  obtain ⟨rfl, rfl⟩ := List.cons.inj heq
                  exact hboth ⟨Option.some.inj (hold'.symm.trans hup), rfl⟩
                rw [if_neg hboth, if_neg hother, Option.bind_some]
                cases hlookup : entryOf nodes e other with
                | none => rfl
                | some i => rw [Option.filter_some, Option.filter_some, (hold i (wf.closed e other i hlookup)).1]
  refine ⟨⟨hlength, hkept, fun path e hpath => ?_, fun path e hpath => ?_⟩, ?_, fun path => ?_⟩
  · rw [hdirs, if_neg]
    · exact hpath
    · rintro rfl
      rw [hnone] at hpath
      cases hpath
  · rw [hdirs] at hpath
    split_ifs at hpath
    · cases hpath
      exact .inr (Nat.le_refl _)
    · exact .inl hpath
  · rw [hdirs, if_pos rfl]
  · rw [realFile, realFile]
    cases path with
    | nil => rfl
    | cons other up' =>
        rw [realEntry, realEntry, hdirs]
        by_cases hup' : up' = name :: up
        · rw [if_pos hup', Option.bind_some, hempty, hup', hnone]
          rfl
        · rw [if_neg hup']
          cases hold' : realDir nodes root up' with
          | none => rfl
          | some e =>
              rw [Option.bind_some, Option.bind_some, hentry]
              by_cases hboth : e = d ∧ other = name
              · have hfile : fileAt nodes' nodes.length = none := by rw [fileAt, hlast]
                rw [if_pos hboth, Option.bind_some, hfile, hboth.1, hboth.2, hnew]
                rfl
              · rw [if_neg hboth]
                cases hlookup : entryOf nodes e other with
                | none => rfl
                | some i => exact (hold i (wf.closed e other i hlookup)).2

-- The bytes of a file that only one name is for.
theorem writeAt_effect (wf : WellFormed nodes) (hup : realDir nodes root up = some d)
    (hsole : ∀ e other, entryOf nodes e other = some i → e = d ∧ other = name)
    (h : writeAt nodes i change = .ok nodes') :
    nodes'.length = nodes.length ∧ (∀ j, j ≠ i → nodes'[j]? = nodes[j]?) ∧
      (∀ path, realDir nodes' root path = realDir nodes root path) ∧
      (∀ e other, entryOf nodes' e other = entryOf nodes e other) ∧
      fileAt nodes' i = (fileAt nodes i).map change ∧
      ∀ path, path ≠ name :: up → realFile nodes' root path = realFile nodes root path := by
  obtain ⟨bytes, hi, rfl⟩ := writeAt_eq_ok h
  have hlt := (List.getElem?_eq_some_iff.mp hi).1
  have hkept : ∀ j, j ≠ i → (nodes.set i (.file (change bytes)))[j]? = nodes[j]? := fun j hj =>
    List.getElem?_set_ne (Ne.symm hj)
  have hdirs := @realDir_congr nodes (nodes.set i (.file (change bytes))) root (isDir_set_file hi root)
    fun e other => by rw [entryOf_set_file hi, funext (isDir_set_file hi)]
  refine ⟨List.length_set, hkept, hdirs, entryOf_set_file hi, ?_, fun path hpath => ?_⟩
  · rw [fileAt, fileAt, List.getElem?_set_self hlt, hi]
    rfl
  · have hentry : realEntry (nodes.set i (.file (change bytes))) root path = realEntry nodes root path := by
      cases path with
      | nil => rfl
      | cons other up' =>
          rw [realEntry, realEntry, hdirs]
          exact congrArg _ (funext fun e => entryOf_set_file hi e other)
    rw [realFile, realFile, hentry]
    cases hold : realEntry nodes root path with
    | none => rfl
    | some j =>
        rw [Option.bind_some, Option.bind_some, fileAt, fileAt, hkept]
        rintro rfl
        cases path with
        | nil => cases hold
        | cons other up' =>
            obtain ⟨e, hup', hentry⟩ := Option.bind_eq_some_iff.mp hold
            obtain ⟨rfl, rfl⟩ := hsole e other hentry
            exact hpath (by rw [realDir_inj wf hup' hup])

end Effects

end Basis.Posix
