import Cosmos3.Basis.PosixOps

namespace Basis.Posix

section Trail

variable (nodes : List Node)

-- The nodes that a walk looks at.
def trail : ℕ → List Component → List ℕ
  | d, [] => [d]
  | d, component :: rest =>
    d ::
      match nodes[d]? with
      | some (.dir parent entries) =>
        match component with
        | .self => trail d rest
        | .up => trail parent rest
        | .name name =>
          match entries.lookup name with
          | none => []
          | some i =>
            match nodes[i]? with
            | some (.link _) => [i]
            | _ => trail i rest
      | _ => []

def trails : ℕ → ℕ → List Component → List ℕ
  | 0, d, parts => trail nodes d parts
  | budget + 1, d, parts =>
    trail nodes d parts ++
      match advance nodes d parts with
      | .link e target rest => trails budget (target.start e) (target.parts ++ rest)
      | _ => []

variable {nodes} {nodes' : List Node} {d : ℕ} {path : List Component}

theorem mem_trail_self (d : ℕ) (path : List Component) : d ∈ trail nodes d path := by
  cases path with
  | nil => exact List.mem_singleton_self d
  | cons component rest => exact List.mem_cons_self

-- A walk depends on the nodes it looks at.
theorem advance_congr (h : ∀ i ∈ trail nodes d path, nodes'[i]? = nodes[i]?) :
    advance nodes' d path = advance nodes d path := by
  induction path generalizing d with
  | nil => rfl
  | cons component rest ih =>
      have hd := h d List.mem_cons_self
      have htail := fun i hi => h i (List.mem_cons_of_mem d hi)
      rw [advance, advance, hd]
      split
      · rename_i parent entries hdir
        rw [hdir] at htail
        cases component with
        | self => exact ih htail
        | up => exact ih htail
        | name name =>
            dsimp only at htail ⊢
            cases hlookup : entries.lookup name with
            | none => rfl
            | some i =>
                rw [hlookup] at htail
                dsimp only at htail ⊢
                have hi : nodes'[i]? = nodes[i]? := by
                  refine htail i ?_
                  split
                  · exact List.mem_singleton_self i
                  · exact mem_trail_self i rest
                rw [hi]
                split
                · rfl
                · rename_i hlink
                  refine ih fun j hj => htail j ?_
                  split
                  · rename_i target heq
                    exact absurd heq (hlink target)
                  · exact hj
      · rfl

theorem walk_congr {budget : ℕ} (h : ∀ i ∈ trails nodes budget d path, nodes'[i]? = nodes[i]?) :
    walk nodes' budget d path = walk nodes budget d path := by
  induction budget generalizing d path with
  | zero =>
      rw [trails] at h
      rw [walk, walk, advance_congr h]
  | succ budget ih =>
      rw [trails] at h
      rw [walk, walk, advance_congr fun i hi => h i (List.mem_append_left _ hi)]
      cases hstop : advance nodes d path with
      | found i => rfl
      | missing => rfl
      | link e target rest =>
          rw [hstop] at h
          exact ih fun i hi => h i (List.mem_append_right _ hi)

theorem trail_lt (wf : WellFormed nodes) (hd : d < nodes.length) : ∀ i ∈ trail nodes d path, i < nodes.length := by
  induction path generalizing d with
  | nil =>
      intro i hi
      rw [List.mem_singleton.mp hi]
      exact hd
  | cons component rest ih =>
      intro i hi
      rw [trail] at hi
      rcases List.mem_cons.mp hi with rfl | hi
      · exact hd
      · split at hi
        · rename_i parent entries hdir
          cases component with
          | self => exact ih hd i hi
          | up => exact ih (wf.parents d parent entries hdir) i hi
          | name name =>
              dsimp only at hi
              split at hi
              · cases hi
              · rename_i j hj
                have hlt := wf.closed d name j ((entryOf_dir hdir).trans hj)
                split at hi
                · rw [List.mem_singleton.mp hi]
                  exact hlt
                · exact ih hlt i hi
        · cases hi

theorem advance_link_lt (wf : WellFormed nodes) (hd : d < nodes.length) {e : ℕ} {target : Target}
    {rest : List Component} (h : advance nodes d path = .link e target rest) : e < nodes.length := by
  induction path generalizing d with
  | nil => cases h
  | cons component path ih =>
      rw [advance] at h
      split at h
      · rename_i parent entries hdir
        cases component with
        | self => exact ih hd h
        | up => exact ih (wf.parents d parent entries hdir) h
        | name name =>
            dsimp only at h
            split at h
            · cases h
            · rename_i j hj
              split at h
              · cases h
                exact hd
              · exact ih (wf.closed d name j ((entryOf_dir hdir).trans hj)) h
      · cases h

theorem trails_lt (wf : WellFormed nodes) {budget : ℕ} (hd : d < nodes.length) :
    ∀ i ∈ trails nodes budget d path, i < nodes.length := by
  induction budget generalizing d path with
  | zero => exact trail_lt wf hd
  | succ budget ih =>
      intro i hi
      rw [trails] at hi
      rcases List.mem_append.mp hi with hi | hi
      · exact trail_lt wf hd i hi
      · split at hi
        · rename_i e target rest hlink
          refine ih ?_ i hi
          unfold Target.start
          split
          · exact isDir_lt wf.top
          · exact advance_link_lt wf hd hlink
        · cases hi

theorem dir_of_advance {component : Component} (h : advance nodes d (component :: path) ≠ .missing) :
    ∃ parent entries, nodes[d]? = some (.dir parent entries) := by
  rw [advance] at h
  split at h
  · rename_i parent entries hdir
    exact ⟨parent, entries, hdir⟩
  · exact absurd rfl h

-- What a walk finds is the last node it looks at.
theorem mem_trail_of_found {i : ℕ} (h : advance nodes d path = .found i) : i ∈ trail nodes d path := by
  induction path generalizing d with
  | nil =>
      obtain rfl : d = i := Stop.found.inj h
      exact List.mem_singleton_self d
  | cons component path ih =>
      obtain ⟨parent, entries, hdir⟩ := dir_of_advance (by rw [h]; exact fun hmissing => by cases hmissing)
      rw [advance, hdir] at h
      rw [trail, hdir]
      refine List.mem_cons_of_mem d ?_
      cases component with
      | self => exact ih h
      | up => exact ih h
      | name name =>
          dsimp only at h ⊢
          cases hlookup : entries.lookup name with
          | none =>
              rw [hlookup] at h
              cases h
          | some j =>
              rw [hlookup] at h
              dsimp only at h ⊢
              cases hj : nodes[j]? with
              | none =>
                  rw [hj] at h
                  exact ih h
              | some node =>
                  rw [hj] at h
                  cases node with
                  | file bytes => exact ih h
                  | link target => cases h
                  | dir parent' entries' => exact ih h

theorem mem_trails_of_walk {budget i : ℕ} (h : walk nodes budget d path = some i) :
    i ∈ trails nodes budget d path := by
  induction budget generalizing d path with
  | zero =>
      rw [walk] at h
      rw [trails]
      split at h
      · rename_i hfound
        cases h
        exact mem_trail_of_found hfound
      · cases h
  | succ budget ih =>
      rw [walk] at h
      rw [trails]
      split at h
      · rename_i hfound
        cases h
        exact List.mem_append_left _ (mem_trail_of_found hfound)
      · cases h
      · rename_i e target rest hlink
        rw [hlink]
        exact List.mem_append_right _ (ih h)

end Trail

section Frame

-- The directories below a root may have changed, and new nodes have come.
structure Frame (before : List Node) (root : ℕ) (nodes : List Node) : Prop where
  length_le : before.length ≤ nodes.length
  kept : ∀ i < before.length, (∀ path, realDir before root path ≠ some i) → nodes[i]? = before[i]?
  within : ∀ path d, realDir nodes root path = some d →
    (∃ path', realDir before root path' = some d) ∨ before.length ≤ d

variable {before nodes nodes' : List Node} {root d : ℕ} {path : List Name}

theorem Frame.refl (before : List Node) (root : ℕ) : Frame before root before :=
  ⟨Nat.le_refl _, fun _ _ _ => rfl, fun path _ h => .inl ⟨path, h⟩⟩

theorem Frame.changed (h : Frame before root nodes) (hd : realDir nodes root path = some d)
    (hchanged : Changed nodes nodes' root d) : Frame before root nodes' := by
  refine ⟨Nat.le_trans h.length_le hchanged.length_le, fun i hi houtside => ?_, fun path e he => ?_⟩
  · have hne : i ≠ d := by
      rintro rfl
      rcases h.within path i hd with ⟨path', hpath'⟩ | hle
      · exact houtside path' hpath'
      · exact Nat.not_lt.mpr hle hi
    exact (hchanged.kept i (Nat.lt_of_lt_of_le hi h.length_le) hne).trans (h.kept i hi houtside)
  · rcases hchanged.within path e he with he | hle
    · exact h.within path e he
    · exact .inr (Nat.le_trans h.length_le hle)

-- Nothing on the way of a path is a directory below the root.
def Apart (nodes : List Node) (root : ℕ) (path : Path) : Prop :=
  ∀ i ∈ trails nodes MAXSYMLINKS path.anchor path.parts, ∀ place, realDir nodes root place ≠ some i

variable {source : Path}

theorem Frame.kept_trails (h : Frame before root nodes) (wf : WellFormed before)
    (hanchor : source.anchor < before.length) (hapart : Apart before root source) :
    ∀ i ∈ trails before MAXSYMLINKS source.anchor source.parts, nodes[i]? = before[i]? := fun i hi =>
  h.kept i (trails_lt wf hanchor i hi) (hapart i hi)

theorem Frame.stat_eq (h : Frame before root nodes) (wf : WellFormed before)
    (hanchor : source.anchor < before.length) (hapart : Apart before root source) :
    stat nodes source = stat before source := walk_congr (h.kept_trails wf hanchor hapart)

theorem Frame.node_eq (h : Frame before root nodes) (wf : WellFormed before)
    (hanchor : source.anchor < before.length) (hapart : Apart before root source) {i : ℕ}
    (hi : stat before source = some i) : nodes[i]? = before[i]? :=
  h.kept_trails wf hanchor hapart i (mem_trails_of_walk hi)

end Frame

section Entries

variable {nodes : List Node} {root d i : ℕ} {name : Name} {up : List Name}

theorem stat_realDir (h : realDir nodes root up = some d) : stat nodes (below root up) = some d :=
  walk_realDir h MAXSYMLINKS

theorem parts_cons (name : Name) (up : List Name) : parts (name :: up) = parts up ++ [.name name] := by
  rw [parts, List.reverse_cons, List.map_append]
  rfl

theorem walk_found {path : List Component} (h : advance nodes d path = .found i) (budget : ℕ) :
    walk nodes budget d path = some i := by
  cases budget with
  | zero => rw [walk, h]
  | succ budget => rw [walk, h]

theorem walk_missing {path : List Component} (h : advance nodes d path = .missing) (budget : ℕ) :
    walk nodes budget d path = none := by
  cases budget with
  | zero => rw [walk, h]
  | succ budget => rw [walk, h]

theorem lstat_realDir (h : realDir nodes root up = some d) :
    lstat nodes root (name :: up) = (entryOf nodes d name).bind fun i => nodes[i]? := by
  rw [lstat, stat_realDir h, Option.bind_some]

-- An entry that is no link is what its path leads to.
theorem stat_entry (h : realDir nodes root up = some d) (hentry : entryOf nodes d name = some i)
    (hlink : isSymlink nodes root (name :: up) = false) : stat nodes (below root (name :: up)) = some i := by
  have hstep : advance nodes d [.name name] = .found i := by
    obtain ⟨parent, entries, hd⟩ := isDir_iff.mp (isDir_of_entryOf hentry)
    rw [isSymlink, lstat_realDir h, hentry, Option.bind_some] at hlink
    rw [entryOf_dir hd] at hentry
    rw [advance, hd]
    simp only [hentry]
    cases hi : nodes[i]? with
    | none => rfl
    | some node =>
        rw [hi] at hlink
        cases node with
        | file bytes => rfl
        | link target => cases hlink
        | dir parent' entries' => rfl
  refine walk_found ?_ MAXSYMLINKS
  rw [below, parts_cons, advance_append (advance_realDir h), hstep]

theorem stat_none (h : realDir nodes root up = some d) (hentry : entryOf nodes d name = none) :
    stat nodes (below root (name :: up)) = none := by
  obtain ⟨parent, entries, hd⟩ := isDir_iff.mp (isDir_of_realDir h)
  rw [entryOf_dir hd] at hentry
  have hstep : advance nodes root (parts up ++ [.name name]) = .missing := by
    rw [advance_append (advance_realDir h), advance, hd]
    simp only [hentry]
  rw [below, stat, parts_cons]
  exact walk_missing hstep MAXSYMLINKS

theorem locate_missing (h : realDir nodes root up = some d) (hentry : entryOf nodes d name = none) :
    locate nodes MAXSYMLINKS root (parts (name :: up)) = some (d, name) := by
  rw [MAXSYMLINKS, locate, parts_cons, List.getLast?_concat, List.dropLast_concat, walk_realDir h]
  simp only [hentry, Option.bind_none]

theorem locate_file (h : realDir nodes root up = some d) (hentry : entryOf nodes d name = some i)
    (hfile : (fileAt nodes i).isSome = true) :
    locate nodes MAXSYMLINKS root (parts (name :: up)) = some (d, name) := by
  rw [MAXSYMLINKS, locate, parts_cons, List.getLast?_concat, List.dropLast_concat, walk_realDir h]
  simp only [hentry, Option.bind_some]
  unfold fileAt at hfile
  split at hfile
  · rename_i bytes hi
    rw [hi]
  · cases hfile

theorem atParent_eq_ok {f : List Node → ℕ → Name → Except OsError (List Node)}
    {hf : ∀ {nodes nodes' : List Node} {d : ℕ} {name : Name}, WellFormed nodes → f nodes d name = .ok nodes' →
      WellFormed nodes'} {fs fs' : Fs} (h : realDir fs.nodes root up = some d) :
    atParent root (name :: up) f hf fs = .ok fs' ↔ f fs.nodes d name = .ok fs'.nodes := by
  rw [atParent]
  simp only [stat_realDir h]
  exact Fs.change_eq_ok

end Entries

section Descend

variable {nodes : List Node} {d i : ℕ} {path : Path} {name : Name} {names : List Name}

theorem descend_nil (path : Path) : path.descend [] = path := by
  rw [Path.descend, List.map_nil, List.append_nil]

theorem descend_cons (path : Path) (name : Name) (names : List Name) :
    path.descend (name :: names) = (path.child name).descend names := by
  simp [Path.descend, Path.child]

theorem child_eq_descend (path : Path) (name : Name) : path.child name = path.descend [name] := rfl

theorem descend_descend (path : Path) (names names' : List Name) :
    (path.descend names).descend names' = path.descend (names ++ names') := by
  simp [Path.descend]

-- A walk that does not come to its end stops at the same place when it is to go further.
theorem advance_append_link {front back : List Component} {e : ℕ} {target : Target} {rest : List Component}
    (h : advance nodes d front = .link e target rest) :
    advance nodes d (front ++ back) = .link e target (rest ++ back) := by
  induction front generalizing d with
  | nil => cases h
  | cons component front ih =>
      rw [advance.eq_def] at h
      rw [List.cons_append, advance.eq_def]
      dsimp only at h ⊢
      split at h
      · cases component with
        | self => exact ih h
        | up => exact ih h
        | name name =>
            dsimp only at h ⊢
            split at h
            · cases h
            · split at h
              · cases h
                rfl
              · exact ih h
      · cases h

theorem advance_append_missing {front back : List Component} (h : advance nodes d front = .missing) :
    advance nodes d (front ++ back) = .missing := by
  induction front generalizing d with
  | nil => cases h
  | cons component front ih =>
      rw [advance.eq_def] at h
      rw [List.cons_append, advance.eq_def]
      dsimp only at h ⊢
      split at h
      · cases component with
        | self => exact ih h
        | up => exact ih h
        | name name =>
            dsimp only at h ⊢
            split at h
            · rfl
            · split at h
              · cases h
              · exact ih h
      · rfl

-- What leads through an entry of a directory leads to the directory.
theorem walk_through {budget : ℕ} {front back : List Component}
    (h : walk nodes budget d (front ++ .name name :: back) = some i) :
    ∃ e, walk nodes budget d front = some e ∧ (entryOf nodes e name).isSome = true := by
  have hentry : ∀ {e : ℕ}, advance nodes e (.name name :: back) ≠ .missing → (entryOf nodes e name).isSome = true := by
    intro e hgoes
    rw [advance] at hgoes
    split at hgoes
    · rename_i parent entries he
      rw [entryOf_dir he]
      dsimp only at hgoes
      split at hgoes
      · exact absurd rfl hgoes
      · rename_i j hj
        rw [hj]
        rfl
    · exact absurd rfl hgoes
  induction budget generalizing d front with
  | zero =>
      rw [walk] at h ⊢
      cases hfront : advance nodes d front with
      | found e =>
          rw [advance_append hfront] at h
          refine ⟨e, rfl, hentry fun hmissing => ?_⟩
          rw [hmissing] at h
          cases h
      | missing =>
          rw [advance_append_missing hfront] at h
          cases h
      | link e target rest =>
          rw [advance_append_link hfront] at h
          cases h
  | succ budget ih =>
      rw [walk] at h ⊢
      cases hfront : advance nodes d front with
      | found e =>
          rw [advance_append hfront] at h
          refine ⟨e, rfl, hentry fun hmissing => ?_⟩
          rw [hmissing] at h
          cases h
      | missing =>
          rw [advance_append_missing hfront] at h
          cases h
      | link e target rest =>
          rw [advance_append_link hfront] at h
          dsimp only at h ⊢
          rw [← List.append_assoc] at h
          exact ih h

theorem stat_through (h : stat nodes (path.descend (name :: names)) = some i) :
    ∃ e, stat nodes path = some e ∧ (entryOf nodes e name).isSome = true := by
  rw [Path.descend, List.map_cons] at h
  exact walk_through h

end Descend

section Closed

variable {nodes : List Node} {root source : ℕ} {S T : ℕ → Prop}

-- Nodes without links that are closed under entries are all that a path of names sees.
theorem trails_of_closed (hclosed : ∀ d name i, S d → entryOf nodes d name = some i → S i)
    (hlinks : ∀ (i : ℕ) (target : Target), S i → nodes[i]? ≠ some (.link target)) (hsource : S source)
    (names : List Name) (budget : ℕ) : ∀ i ∈ trails nodes budget source (names.map .name), S i := by
  have htrail : ∀ (names : List Name) (d : ℕ), S d → ∀ i ∈ trail nodes d (names.map .name), S i := by
    intro names
    induction names with
    | nil =>
        intro d hd i hi
        rw [List.mem_singleton.mp hi]
        exact hd
    | cons name names ih =>
        intro d hd i hi
        rw [List.map_cons, trail] at hi
        rcases List.mem_cons.mp hi with rfl | hi
        · exact hd
        · split at hi
          · rename_i parent entries hdir
            dsimp only at hi
            split at hi
            · cases hi
            · rename_i j hj
              have hnext := hclosed d name j hd ((entryOf_dir hdir).trans hj)
              split at hi
              · rename_i target htarget
                exact absurd htarget (hlinks j target hnext)
              · exact ih j hnext i hi
          · cases hi
  have hstop : ∀ (names : List Name) (d e : ℕ) (target : Target) (rest : List Component), S d →
      advance nodes d (names.map .name) ≠ .link e target rest := by
    intro names
    induction names with
    | nil => exact fun _ _ _ _ _ h => by cases h
    | cons name names ih =>
        intro d e target rest hd h
        rw [List.map_cons, advance] at h
        split at h
        · rename_i parent entries hdir
          dsimp only at h
          split at h
          · cases h
          · rename_i j hj
            have hnext := hclosed d name j hd ((entryOf_dir hdir).trans hj)
            split at h
            · rename_i target' htarget
              exact hlinks j target' hnext htarget
            · exact ih j e target rest hnext h
        · cases h
  intro i hi
  cases budget with
  | zero => exact htrail names source hsource i hi
  | succ budget =>
      rw [trails] at hi
      rcases List.mem_append.mp hi with hi | hi
      · exact htrail names source hsource i hi
      · split at hi
        · rename_i e target rest hlink
          exact absurd hlink (hstop names source e target rest hsource)
        · cases hi

theorem realDir_of_closed (hclosed : ∀ d name i, T d → entryOf nodes d name = some i → isDir nodes i = true → T i)
    (hroot : T root) {path : List Name} {d : ℕ} (h : realDir nodes root path = some d) : T d := by
  induction path generalizing d with
  | nil =>
      rw [realDir] at h
      split_ifs at h
      cases h
      exact hroot
  | cons name up ih =>
      obtain ⟨e, hup, hentry, hdir⟩ := realDir_cons.mp h
      exact hclosed e name d (ih hup) hentry hdir

def isLink (nodes : List Node) (i : ℕ) : Bool :=
  match nodes[i]? with
  | some (.link _) => true
  | _ => false

-- The same for what lists of nodes show.
theorem apart_of_edges {inside outside : List ℕ} (hinside : ∀ edge ∈ edges nodes, edge.1 ∈ inside → edge.2.2 ∈ inside)
    (hlinks : ∀ i ∈ inside, isLink nodes i = false) (hsource : source ∈ inside)
    (houtside : ∀ edge ∈ edges nodes, edge.1 ∈ outside → isDir nodes edge.2.2 = true → edge.2.2 ∈ outside)
    (hroot : root ∈ outside) (hdisjoint : ∀ i ∈ inside, i ∉ outside) (names : List Name) :
    Apart nodes root ⟨source, names.map .name⟩ := by
  intro i hi place hplace
  refine hdisjoint i ?_ (realDir_of_closed (T := (· ∈ outside)) ?_ hroot hplace)
  · refine trails_of_closed (S := (· ∈ inside)) (fun d name j hd hentry => hinside _ (mem_edges hentry) hd)
      (fun j target hj htarget => ?_) hsource names MAXSYMLINKS i hi
    have hlink := hlinks j hj
    rw [isLink, htarget] at hlink
    cases hlink
  · exact fun d name j hd hentry hdir => houtside _ (mem_edges hentry) hd hdir

end Closed

section Holds

-- What is known of the files while programs work below a root: besides the frame, some
-- files with their bytes and some directories.
structure Holds (before : List Node) (root : ℕ) (F : List Name → List UInt8 → Prop) (G : List Name → Prop)
    (fs : Fs) : Prop where
  frame : Frame before root fs.nodes
  files : ∀ path bytes, F path bytes → realFile fs.nodes root path = some bytes
  dirs : ∀ path, G path → ∃ d, realDir fs.nodes root path = some d

def Confined (before : List Node) (root : ℕ) (fs : Fs) : Prop := Frame before root fs.nodes

variable {before : List Node} {root : ℕ} {F : List Name → List UInt8 → Prop} {G : List Name → Prop}
  {fs fs' : Fs} {name : Name} {up : List Name}

theorem Holds.confined (h : Holds before root F G fs) : Confined before root fs := h.frame

theorem Holds.changed (h : Holds before root F G fs) {d : ℕ} (hup : realDir fs.nodes root up = some d)
    (hchanged : Changed fs.nodes fs'.nodes root d)
    (hfiles : ∀ path bytes, F path bytes → realFile fs'.nodes root path = realFile fs.nodes root path) :
    Holds before root F G fs' := by
  refine ⟨h.frame.changed hup hchanged, fun path bytes hpath => ?_, fun path hpath => ?_⟩
  · exact (hfiles path bytes hpath).trans (h.files path bytes hpath)
  · obtain ⟨e, he⟩ := h.dirs path hpath
    exact ⟨e, hchanged.dirs path e he⟩

theorem Holds.mono_dirs {G' : List Name → Prop} {fs : Fs} (h : Holds before root F G fs)
    (hG : ∀ path, G' path → G path) : Holds before root F G' fs :=
  ⟨h.frame, h.files, fun path hpath => h.dirs path (hG path hpath)⟩

theorem Holds.mono_files {F' : List Name → List UInt8 → Prop} {fs : Fs} (h : Holds before root F G fs)
    (hF : ∀ path bytes, F' path bytes → F path bytes) : Holds before root F' G fs :=
  ⟨h.frame, fun path bytes hpath => h.files path bytes (hF path bytes hpath), h.dirs⟩

-- A path without a regular file is not one of the files.
theorem Holds.ne_of_realFile_none (h : Holds before root F G fs) {path other : List Name} {bytes : List UInt8}
    (hother : realFile fs.nodes root other = none) (hpath : F path bytes) : path ≠ other := by
  rintro rfl
  have hfile := h.files path bytes hpath
  rw [hother] at hfile
  cases hfile

theorem realFile_of_isSymlink {nodes : List Node} {d : ℕ} (hup : realDir nodes root up = some d)
    (h : isSymlink nodes root (name :: up) = true) : realFile nodes root (name :: up) = none := by
  rw [isSymlink, lstat_realDir hup] at h
  rw [realFile, realEntry, hup, Option.bind_some]
  cases hentry : entryOf nodes d name with
  | none => rfl
  | some i =>
      rw [hentry, Option.bind_some] at h
      split at h
      · rename_i target hi
        rw [Option.bind_some, fileAt, hi]
      · cases h

theorem spec_unlink (hG : G up) (hF : ∀ bytes, ¬F (name :: up) bytes) :
    Program.Spec (Holds before root F G) (unlink root (name :: up))
      (fun _ fs => Holds before root F G fs ∧ realEntry fs.nodes root (name :: up) = none)
      (Confined before root) := by
  have hstep : ∀ fs fs', Holds before root F G fs →
      atParent root (name :: up) unlinkAt WellFormed.unlinkAt fs = .ok fs' →
      Holds before root F G fs' ∧ realEntry fs'.nodes root (name :: up) = none := by
    intro fs fs' h hunlink
    obtain ⟨d, hup⟩ := h.dirs up hG
    obtain ⟨hchanged, hentry, hfiles⟩ :=
      unlinkAt_effect fs.wellFormed hup ((atParent_eq_ok hup).mp hunlink)
    refine ⟨h.changed hup hchanged fun path bytes hpath => hfiles path ?_, ?_⟩
    · rintro rfl
      exact hF bytes hpath
    · rw [realEntry, hchanged.dirs up d hup, Option.bind_some, hentry]
  refine Program.Spec.act (fun fs fs' h hunlink => ?_) (fun _ _ _ hpart => hpart.elim) fun _ h => h.confined
  have hdone := hstep fs fs' h hunlink
  exact ⟨hdone, hdone.1.confined⟩

-- A link can always go: it is none of the files.
theorem spec_unlink_link (hG : G up) :
    Program.Spec (fun fs => Holds before root F G fs ∧ isSymlink fs.nodes root (name :: up) = true)
      (unlink root (name :: up))
      (fun _ fs => Holds before root F G fs ∧ realEntry fs.nodes root (name :: up) = none)
      (Confined before root) := by
  by_cases hF : ∀ bytes, ¬F (name :: up) bytes
  · exact (spec_unlink hG hF).mono (fun _ h => h.1) (fun _ _ h => h) fun _ h => h
  · obtain ⟨bytes, hbytes⟩ := not_forall_not.mp hF
    have hnever : ∀ fs, ¬(Holds before root F G fs ∧ isSymlink fs.nodes root (name :: up) = true) := by
      rintro fs ⟨h, hlink⟩
      obtain ⟨d, hup⟩ := h.dirs up hG
      exact h.ne_of_realFile_none (realFile_of_isSymlink hup hlink) hbytes rfl
    exact ⟨fun fs _ _ h => absurd h (hnever fs), fun fs _ _ h => absurd h (hnever fs)⟩

theorem spec_makeDir (hG : G up) :
    Program.Spec (fun fs => Holds before root F G fs ∧ isSymlink fs.nodes root (name :: up) = false)
      (makeDir root (name :: up))
      (fun _ fs => Holds before root F (fun path => G path ∨ path = name :: up) fs)
      (Confined before root) := by
  have hstep : ∀ fs fs', Holds before root F G fs → isSymlink fs.nodes root (name :: up) = false →
      makeDirStep root (name :: up) fs = .ok fs' → Holds before root F (fun path => G path ∨ path = name :: up) fs' := by
    intro fs fs' h hlink hmake
    obtain ⟨d, hup⟩ := h.dirs up hG
    unfold makeDirStep at hmake
    split at hmake
    · rename_i made hadd
      cases hmake
      obtain ⟨hchanged, hnew, hfiles⟩ := makeDirAt_effect fs.wellFormed hup ((atParent_eq_ok hup).mp hadd)
      have hholds := h.changed hup hchanged fun path _ _ => hfiles path
      exact ⟨hholds.frame, hholds.files, fun path hpath => hpath.elim (hholds.dirs path) fun heq => ⟨_, heq ▸ hnew⟩⟩
    · split_ifs at hmake with hdir
      cases hmake
      refine ⟨h.frame, h.files, fun path hpath => hpath.elim (h.dirs path) fun heq => ?_⟩
      cases hentry : entryOf fs.nodes d name with
      | none =>
          rw [isDirAt, stat_none hup hentry] at hdir
          cases hdir
      | some i =>
          rw [isDirAt, stat_entry hup hentry hlink] at hdir
          exact ⟨i, heq ▸ realDir_cons.mpr ⟨d, hup, hentry, hdir⟩⟩
  refine Program.Spec.act (fun fs fs' h hmake => ?_) (fun _ _ _ hpart => hpart.elim) fun _ h => h.1.confined
  have hdone := hstep fs fs' h.1 h.2 hmake
  exact ⟨hdone, hdone.confined⟩

theorem spec_mkdir (hG : G up) :
    Program.Spec (fun fs => Holds before root F G fs ∧ isSymlink fs.nodes root (name :: up) = false)
      (mkdir root (name :: up))
      (fun _ fs => Holds before root F (fun path => G path ∨ path = name :: up) fs)
      (Confined before root) := by
  rw [mkdir]
  refine Program.Spec.seq (Q := fun found fs => (Holds before root F G fs ∧
    isSymlink fs.nodes root (name :: up) = false) ∧ found = true) (.read ?_ fun _ h => h.1.confined) fun found => ?_
  · intro fs found h hfound
    obtain ⟨d, hup⟩ := h.1.dirs up hG
    cases hfound
    exact ⟨h, by rw [pathExists, stat_realDir hup]; rfl⟩
  · cases found with
    | true => exact (spec_makeDir hG).mono (fun _ h => h.1) (fun _ _ h => h) fun _ h => h
    | false => exact ⟨fun fs _ _ h => by simp at h, fun fs _ _ h => by simp at h⟩

-- A file that has been made at a path and is being written.
structure Opened (before : List Node) (root : ℕ) (F : List Name → List UInt8 → Prop) (G : List Name → Prop)
    (name : Name) (up : List Name) (i : ℕ) (written : List UInt8) (fs : Fs) : Prop where
  holds : Holds before root F G fs
  fresh : before.length ≤ i
  named : ∃ d, realDir fs.nodes root up = some d ∧ entryOf fs.nodes d name = some i ∧
    ∀ e other, entryOf fs.nodes e other = some i → e = d ∧ other = name
  written : fileAt fs.nodes i = some written

theorem spec_openWrite (hG : G up) (hF : ∀ bytes, ¬F (name :: up) bytes) :
    Program.Spec (fun fs => Holds before root F G fs ∧ realEntry fs.nodes root (name :: up) = none)
      (openWrite root (name :: up)) (fun _ fs => ∃ i, Opened before root F G name up i [] fs)
      (Confined before root) := by
  have hstep : ∀ fs fs', Holds before root F G fs → realEntry fs.nodes root (name :: up) = none →
      openWriteStep root (name :: up) fs = .ok fs' → ∃ i, Opened before root F G name up i [] fs' := by
    intro fs fs' h hnone hopen
    obtain ⟨d, hup⟩ := h.dirs up hG
    rw [realEntry, hup, Option.bind_some] at hnone
    simp only [openWriteStep, locate_missing hup hnone, hnone, Fs.change_eq_ok] at hopen
    obtain ⟨hchanged, hentry, hfile, hsole, hfiles⟩ := createAt_effect fs.wellFormed hup hopen
    refine ⟨fs.nodes.length, h.changed hup hchanged fun path bytes hpath => hfiles path ?_, h.frame.length_le,
      ⟨d, hchanged.dirs up d hup, hentry, hsole⟩, hfile⟩
    rintro rfl
    exact hF bytes hpath
  refine Program.Spec.act (fun fs fs' h hopen => ?_) (fun _ _ _ hpart => hpart.elim) fun _ h => h.1.confined
  obtain ⟨i, hdone⟩ := hstep fs fs' h.1 h.2 hopen
  exact ⟨⟨i, hdone⟩, hdone.holds.confined⟩

theorem spec_descriptor :
    Program.Spec (fun fs => ∃ i, Opened before root F G name up i [] fs) (descriptor root (name :: up))
      (fun i fs => Opened before root F G name up i [] fs) (Confined before root) := by
  refine .read (fun fs i h hread => ?_) fun fs h => h.choose_spec.holds.confined
  obtain ⟨j, hopened⟩ := h
  obtain ⟨d, hup, hentry, -⟩ := hopened.named
  have hfile : (fileAt fs.nodes j).isSome = true := by rw [hopened.written]; rfl
  simp only [locate_file hup hentry hfile, Option.bind_some, hentry] at hread
  cases hread
  exact hopened

theorem Opened.append {i : ℕ} {written bytes : List UInt8} (hF : ∀ bytes, ¬F (name :: up) bytes)
    (h : Opened before root F G name up i written fs) (happend : appendTo i bytes fs = .ok fs') :
    Opened before root F G name up i (written ++ bytes) fs' := by
  obtain ⟨d, hup, hentry, hsole⟩ := h.named
  obtain ⟨hlength, hkept, hdirs, hentries, hfile, hfiles⟩ :=
    writeAt_effect fs.wellFormed hup hsole (Fs.change_eq_ok.mp happend)
  refine ⟨⟨⟨?_, fun j hj houtside => ?_, fun path e he => ?_⟩, fun path content hpath => ?_, fun path hpath => ?_⟩,
    h.fresh, ⟨d, (hdirs up).trans hup, (hentries d name).trans hentry, fun e other hother => ?_⟩, ?_⟩
  · rw [hlength]
    exact h.holds.frame.length_le
  · rw [hkept j (Nat.ne_of_lt (Nat.lt_of_lt_of_le hj h.fresh))]
    exact h.holds.frame.kept j hj houtside
  · rw [hdirs] at he
    exact h.holds.frame.within path e he
  · rw [hfiles path]
    · exact h.holds.files path content hpath
    · rintro rfl
      exact hF content hpath
  · obtain ⟨e, he⟩ := h.holds.dirs path hpath
    exact ⟨e, (hdirs path).trans he⟩
  · rw [hentries] at hother
    exact hsole e other hother
  · rw [hfile, h.written]
    rfl

theorem spec_append {i : ℕ} {written : List UInt8} (hF : ∀ bytes, ¬F (name :: up) bytes) (bytes : List UInt8) :
    Program.Spec (Opened before root F G name up i written) (append i bytes)
      (fun _ => Opened before root F G name up i (written ++ bytes)) (Confined before root) := by
  refine Program.Spec.act (fun fs fs' h happend => ?_) (fun fs fs' h hpart => ?_) fun fs h => h.holds.confined
  · have hdone := h.append hF happend
    exact ⟨hdone, hdone.holds.confined⟩
  · obtain ⟨part, -, happend⟩ := hpart
    exact (h.append hF happend).holds.confined

theorem spec_replace {i : ℕ} {written : List UInt8} {newName : Name} (hF : ∀ bytes, ¬F (name :: up) bytes)
    (hnew : ∀ bytes, ¬F (newName :: up) bytes) :
    Program.Spec (Opened before root F G name up i written) (replace root (name :: up) newName)
      (fun _ => Holds before root (fun path bytes => F path bytes ∨ path = newName :: up ∧ bytes = written) G)
      (Confined before root) := by
  have hstep : ∀ fs fs', Opened before root F G name up i written fs →
      atParent root (name :: up) (fun nodes d name => renameAt nodes d name newName) WellFormed.renameAt fs = .ok fs' →
      Holds before root (fun path bytes => F path bytes ∨ path = newName :: up ∧ bytes = written) G fs' := by
    intro fs fs' h hrename
    obtain ⟨d, hup, hentry, -⟩ := h.named
    obtain ⟨hchanged, hmoved, hfiles⟩ := renameAt_effect fs.wellFormed hup ((atParent_eq_ok hup).mp hrename)
    have hholds := h.holds.changed hup hchanged fun path bytes hpath => hfiles path
      (fun heq => hF bytes (heq ▸ hpath)) fun heq => hnew bytes (heq ▸ hpath)
    refine ⟨hholds.frame, fun path bytes hpath => ?_, hholds.dirs⟩
    rcases hpath with hpath | ⟨rfl, rfl⟩
    · exact hholds.files path bytes hpath
    · rw [hmoved, realFile, realEntry, hup, Option.bind_some, hentry, Option.bind_some]
      exact h.written
  refine Program.Spec.act (fun fs fs' h hrename => ?_) (fun _ _ _ hpart => hpart.elim) fun fs h => h.holds.confined
  have hdone := hstep fs fs' h hrename
  exact ⟨hdone, hdone.confined⟩

end Holds

end Basis.Posix
