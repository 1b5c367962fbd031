import Cosmos3.Basis.Text
import Mathlib.Data.List.AList

namespace Basis.Posix

section Names

-- What a directory can call an entry.
def IsName (text : Text) : Prop :=
  text ≠ [] ∧ text ≠ ascii "." ∧ text ≠ ascii ".." ∧ 47 ∉ text

instance (text : Text) : Decidable (IsName text) := inferInstanceAs (Decidable (_ ∧ _))

structure Name where
  text : Text
  isName : IsName text
deriving DecidableEq

inductive Component where
  | self
  | up
  | name (name : Name)
deriving DecidableEq

-- Where a symbolic link leads: from the top directory, or from the one that holds it.
structure Target where
  absolute : Bool
  parts : List Component
deriving DecidableEq

end Names

section Nodes

abbrev Entries := AList fun _ : Name => ℕ

inductive Node where
  | file (bytes : List UInt8)
  | link (target : Target)
  | dir (parent : ℕ) (entries : Entries)

variable (nodes : List Node)

def entryOf (d : ℕ) (name : Name) : Option ℕ :=
  match nodes[d]? with
  | some (.dir _ entries) => entries.lookup name
  | _ => none

def isDir (i : ℕ) : Bool :=
  match nodes[i]? with
  | some (.dir _ _) => true
  | _ => false

-- The directories are a tree below the top one, and all the others have their places in it.
structure WellFormed : Prop where
  top : isDir nodes 0 = true
  closed : ∀ (d : ℕ) (name : Name) (i : ℕ), entryOf nodes d name = some i → i < nodes.length
  parents : ∀ (i parent : ℕ) (entries : Entries), nodes[i]? = some (.dir parent entries) → parent < nodes.length
  parent : ∀ (d : ℕ) (name : Name) (i parent : ℕ) (entries : Entries), entryOf nodes d name = some i →
    nodes[i]? = some (.dir parent entries) → parent = d
  single : ∀ (d : ℕ) (name name' : Name) (i : ℕ), entryOf nodes d name = some i → entryOf nodes d name' = some i →
    isDir nodes i = true → name = name'
  ranked : ∃ rank : ℕ → ℕ, ∀ (d : ℕ) (name : Name) (i : ℕ), entryOf nodes d name = some i →
    isDir nodes i = true → rank d < rank i

-- The files of a machine. No node goes, even when no directory has it any more.
structure Fs where
  nodes : List Node
  wellFormed : WellFormed nodes

theorem Fs.eq_of_nodes {fs fs' : Fs} (h : fs.nodes = fs'.nodes) : fs = fs' := by
  cases fs
  cases fs'
  cases h
  rfl

end Nodes

section Walk

variable (nodes : List Node)

inductive Stop where
  | found (i : ℕ)
  | missing
  | link (d : ℕ) (target : Target) (rest : List Component)

-- The way from a directory, up to the first link on it.
def advance : ℕ → List Component → Stop
  | d, [] => .found d
  | d, component :: rest =>
    match nodes[d]? with
    | some (.dir parent entries) =>
      match component with
      | .self => advance d rest
      | .up => advance parent rest
      | .name name =>
        match entries.lookup name with
        | none => .missing
        | some i =>
          match nodes[i]? with
          | some (.link target) => .link d target rest
          | _ => advance i rest
    | _ => .missing

def Target.start (target : Target) (d : ℕ) : ℕ := if target.absolute then 0 else d

-- The way through links, so many at most.
def walk : ℕ → ℕ → List Component → Option ℕ
  | 0, d, parts =>
    match advance nodes d parts with
    | .found i => some i
    | _ => none
  | budget + 1, d, parts =>
    match advance nodes d parts with
    | .found i => some i
    | .missing => none
    | .link d target rest => walk budget (target.start d) (target.parts ++ rest)

-- A path from a directory that is known.
structure Path where
  anchor : ℕ
  parts : List Component
deriving DecidableEq

def Path.child (path : Path) (name : Name) : Path := { path with parts := path.parts ++ [.name name] }

def MAXSYMLINKS : ℕ := 40

def stat (path : Path) : Option ℕ := walk nodes MAXSYMLINKS path.anchor path.parts

end Walk

section Changes

variable (nodes : List Node) (d : ℕ) (name : Name)

-- `exhausted` is for a stack or a loop that has come to its limit.
inductive OsError where
  | notFound
  | fileExists
  | isADirectory
  | notADirectory
  | exhausted
deriving DecidableEq

def unlinkAt : Except OsError (List Node) :=
  match nodes[d]? with
  | some (.dir parent entries) =>
    match entries.lookup name with
    | none => .error .notFound
    | some i =>
      if isDir nodes i then .error .isADirectory
      else .ok (nodes.set d (.dir parent (entries.erase name)))
  | _ => .error .notADirectory

-- An entry that is not there yet, with its node.
def addAt (node : Node) : Except OsError (List Node) :=
  match nodes[d]? with
  | some (.dir parent entries) =>
    match entries.lookup name with
    | none => .ok (nodes.set d (.dir parent (entries.insert name nodes.length)) ++ [node])
    | some _ => .error .fileExists
  | _ => .error .notADirectory

def makeDirAt : Except OsError (List Node) := addAt nodes d name (.dir d ∅)

def createAt : Except OsError (List Node) := addAt nodes d name (.file [])

-- The bytes of a file that is open.
def writeAt (i : ℕ) (change : List UInt8 → List UInt8) : Except OsError (List Node) :=
  match nodes[i]? with
  | some (.file bytes) => .ok (nodes.set i (.file (change bytes)))
  | _ => .error .isADirectory

-- `rename` of a file within its directory. Two names of one file stay as they are.
def renameAt (newName : Name) : Except OsError (List Node) :=
  match nodes[d]? with
  | some (.dir parent entries) =>
    match entries.lookup name with
    | none => .error .notFound
    | some i =>
      if isDir nodes i then .error .isADirectory
      else if (entries.lookup newName).any (isDir nodes) then .error .isADirectory
      else if entries.lookup newName = some i then .ok nodes
      else .ok (nodes.set d (.dir parent ((entries.erase name).insert newName i)))
  | _ => .error .notADirectory

end Changes

section Facts

variable {nodes : List Node} {d i : ℕ} {name : Name}

theorem isDir_iff : isDir nodes i = true ↔ ∃ parent entries, nodes[i]? = some (.dir parent entries) := by
  unfold isDir
  split
  · rename_i parent entries h
    exact ⟨fun _ => ⟨parent, entries, h⟩, fun _ => rfl⟩
  · rename_i h
    exact ⟨fun hfalse => by simp at hfalse, fun ⟨parent, entries, heq⟩ => absurd heq (h parent entries)⟩

theorem isDir_of_dir {parent : ℕ} {entries : Entries} (h : nodes[i]? = some (.dir parent entries)) :
    isDir nodes i = true := isDir_iff.mpr ⟨parent, entries, h⟩

theorem entryOf_dir {parent : ℕ} {entries : Entries} (h : nodes[d]? = some (.dir parent entries)) :
    entryOf nodes d name = entries.lookup name := by rw [entryOf, h]

theorem isDir_of_entryOf (h : entryOf nodes d name = some i) : isDir nodes d = true := by
  unfold entryOf at h
  split at h
  · rename_i hd
    exact isDir_of_dir hd
  · cases h

theorem isDir_lt (h : isDir nodes i = true) : i < nodes.length := by
  obtain ⟨parent, entries, heq⟩ := isDir_iff.mp h
  exact (List.getElem?_eq_some_iff.mp heq).1

variable {parent : ℕ} {entries entries' : Entries}

theorem entryOf_set (h : nodes[d]? = some (.dir parent entries)) (d' : ℕ) (name : Name) :
    entryOf (nodes.set d (.dir parent entries')) d' name =
      if d' = d then entries'.lookup name else entryOf nodes d' name := by
  have hlt : d < nodes.length := (List.getElem?_eq_some_iff.mp h).1
  unfold entryOf
  by_cases heq : d' = d
  · rw [if_pos heq, heq, List.getElem?_set_self hlt]
  · rw [if_neg heq, List.getElem?_set_ne (Ne.symm heq)]

theorem isDir_set (h : nodes[d]? = some (.dir parent entries)) (i : ℕ) :
    isDir (nodes.set d (.dir parent entries')) i = isDir nodes i := by
  have hlt : d < nodes.length := (List.getElem?_eq_some_iff.mp h).1
  by_cases heq : i = d
  · rw [heq, isDir_of_dir h]
    exact isDir_of_dir (List.getElem?_set_self hlt)
  · unfold isDir
    rw [List.getElem?_set_ne (Ne.symm heq)]

theorem entryOf_lt (h : entryOf nodes d name = some i) : d < nodes.length := isDir_lt (isDir_of_entryOf h)

-- A node without entries.
def Node.Bare : Node → Prop
  | .dir _ entries => entries = ∅
  | _ => True

theorem entryOf_append {node : Node} (hnode : node.Bare) (d : ℕ) (name : Name) :
    entryOf (nodes ++ [node]) d name = entryOf nodes d name := by
  unfold entryOf
  rcases Nat.lt_trichotomy d nodes.length with hlt | heq | hgt
  · rw [List.getElem?_append_left hlt]
  · rw [heq, List.getElem?_concat_length, List.getElem?_eq_none (Nat.le_refl _)]
    cases node with
    | file bytes => rfl
    | link target => rfl
    | dir parent entries =>
        obtain rfl : entries = ∅ := hnode
        exact AList.lookup_empty name
  · rw [List.getElem?_eq_none (by simp; omega), List.getElem?_eq_none (by omega)]

theorem isDir_append {node : Node} (hi : i < nodes.length) : isDir (nodes ++ [node]) i = isDir nodes i := by
  unfold isDir
  rw [List.getElem?_append_left hi]

end Facts

section Kept

variable {nodes nodes' : List Node} {d i : ℕ} {name newName : Name} {parent : ℕ}
  {entries entries' : Entries}

-- The same directories, whose entries are old ones or no directories.
theorem WellFormed.of_entries (wf : WellFormed nodes) (hlength : nodes.length ≤ nodes'.length)
    (hdirs : ∀ i, isDir nodes i = true → isDir nodes' i = true)
    (hparent : ∀ (i parent : ℕ) (entries' : Entries), nodes'[i]? = some (.dir parent entries') →
      ∃ entries, nodes[i]? = some (.dir parent entries))
    (hentries : ∀ d name i, entryOf nodes' d name = some i →
      entryOf nodes d name = some i ∨ i < nodes'.length ∧ isDir nodes' i = false) : WellFormed nodes' := by
  have hold : ∀ d name i, entryOf nodes' d name = some i → isDir nodes' i = true →
      entryOf nodes d name = some i := by
    intro d name i hentry hi
    rcases hentries d name i hentry with hentry | ⟨-, hfile⟩
    · exact hentry
    · rw [hi] at hfile
      cases hfile
  have hdir : ∀ i, isDir nodes' i = true → isDir nodes i = true := by
    intro i hi
    obtain ⟨parent, entries', hi⟩ := isDir_iff.mp hi
    obtain ⟨entries, hi⟩ := hparent i parent entries' hi
    exact isDir_of_dir hi
  obtain ⟨rank, hrank⟩ := wf.ranked
  constructor
  · exact hdirs 0 wf.top
  · intro d name i hentry
    rcases hentries d name i hentry with hentry | ⟨hlt, -⟩
    · exact Nat.lt_of_lt_of_le (wf.closed d name i hentry) hlength
    · exact hlt
  · intro i parent entries' hi
    obtain ⟨entries, hi⟩ := hparent i parent entries' hi
    exact Nat.lt_of_lt_of_le (wf.parents i parent entries hi) hlength
  · intro d name i parent entries' hentry hi
    have hentry := hold d name i hentry (isDir_of_dir hi)
    obtain ⟨entries, hi⟩ := hparent i parent entries' hi
    exact wf.parent d name i parent entries hentry hi
  · intro d name name' i hentry hentry' hi
    exact wf.single d name name' i (hold d name i hentry hi) (hold d name' i hentry' hi) (hdir i hi)
  · exact ⟨rank, fun d name i hentry hi => hrank d name i (hold d name i hentry hi) (hdir i hi)⟩

-- Entries of one directory go, or come in that are no directories.
theorem WellFormed.setDir (wf : WellFormed nodes) (h : nodes[d]? = some (.dir parent entries))
    (hentries : ∀ name i, entries'.lookup name = some i →
      entries.lookup name = some i ∨ i < nodes.length ∧ isDir nodes i = false) :
    WellFormed (nodes.set d (.dir parent entries')) := by
  refine wf.of_entries (Nat.le_of_eq List.length_set.symm) (fun i hi => (isDir_set h i).trans hi) ?_ ?_
  · intro i parent' entries'' hi
    by_cases heq : i = d
    · rw [heq, List.getElem?_set_self (List.getElem?_eq_some_iff.mp h).1] at hi
      cases hi
      exact ⟨entries, heq ▸ h⟩
    · rw [List.getElem?_set_ne (Ne.symm heq)] at hi
      exact ⟨entries'', hi⟩
  · intro d' name i hentry
    rw [entryOf_set h] at hentry
    rw [List.length_set, isDir_set h]
    split_ifs at hentry with heq
    · rw [heq, entryOf_dir h]
      exact hentries name i hentry
    · exact .inl hentry

-- A new file belongs to no directory yet.
theorem WellFormed.append_file (wf : WellFormed nodes) (bytes : List UInt8) :
    WellFormed (nodes ++ [.file bytes]) := by
  refine wf.of_entries (by simp) (fun i hi => (isDir_append (isDir_lt hi)).trans hi) ?_ ?_
  · intro i parent entries' hi
    rw [List.getElem?_append] at hi
    split_ifs at hi
    · exact ⟨entries', hi⟩
    · rw [List.getElem?_singleton] at hi
      split_ifs at hi
      cases hi
  · intro d name i hentry
    rw [@entryOf_append nodes (.file bytes) trivial] at hentry
    exact .inl hentry

theorem isDir_set_file {bytes bytes' : List UInt8} (h : nodes[i]? = some (.file bytes)) (j : ℕ) :
    isDir (nodes.set i (.file bytes')) j = isDir nodes j := by
  unfold isDir
  by_cases heq : j = i
  · rw [heq, List.getElem?_set_self (List.getElem?_eq_some_iff.mp h).1, h]
  · rw [List.getElem?_set_ne (Ne.symm heq)]

theorem entryOf_set_file {bytes bytes' : List UInt8} (h : nodes[i]? = some (.file bytes)) (d : ℕ) (name : Name) :
    entryOf (nodes.set i (.file bytes')) d name = entryOf nodes d name := by
  unfold entryOf
  by_cases heq : d = i
  · rw [heq, List.getElem?_set_self (List.getElem?_eq_some_iff.mp h).1, h]
  · rw [List.getElem?_set_ne (Ne.symm heq)]

theorem WellFormed.set_file (wf : WellFormed nodes) {bytes bytes' : List UInt8}
    (h : nodes[i]? = some (.file bytes)) : WellFormed (nodes.set i (.file bytes')) := by
  refine wf.of_entries (Nat.le_of_eq List.length_set.symm) (fun j hj => (isDir_set_file h j).trans hj) ?_ ?_
  · intro j parent entries' hj
    by_cases heq : j = i
    · rw [heq, List.getElem?_set_self (List.getElem?_eq_some_iff.mp h).1] at hj
      cases hj
    · rw [List.getElem?_set_ne (Ne.symm heq)] at hj
      exact ⟨entries', hj⟩
  · intro d name j hentry
    rw [entryOf_set_file h] at hentry
    exact .inl hentry

-- What a directory and a new node come to.
theorem entryOf_add {node : Node} (hnode : node.Bare) (h : nodes[d]? = some (.dir parent entries))
    (d' : ℕ) (other : Name) :
    entryOf (nodes.set d (.dir parent (entries.insert name nodes.length)) ++ [node]) d' other =
      if d' = d ∧ other = name then some nodes.length else entryOf nodes d' other := by
  rw [entryOf_append hnode, entryOf_set h]
  by_cases hd : d' = d
  · rw [if_pos hd]
    by_cases hname : other = name
    · rw [if_pos ⟨hd, hname⟩, hname, AList.lookup_insert]
    · rw [if_neg fun hboth => hname hboth.2, AList.lookup_insert_ne hname, hd, entryOf_dir h]
  · rw [if_neg hd, if_neg fun hboth => hd hboth.1]

theorem WellFormed.add_dir (wf : WellFormed nodes) (h : nodes[d]? = some (.dir parent entries)) :
    WellFormed (nodes.set d (.dir parent (entries.insert name nodes.length)) ++ [.dir d ∅]) := by
  have hd : d < nodes.length := (List.getElem?_eq_some_iff.mp h).1
  have hentry := @entryOf_add nodes d name parent entries (.dir d ∅) rfl h
  have hlength : (nodes.set d (.dir parent (entries.insert name nodes.length)) ++ [Node.dir d ∅]).length =
      nodes.length + 1 := by simp
  -- a directory of the new nodes is an old one or the new one
  have hnode : ∀ (i parent' : ℕ) (entries'' : Entries),
      (nodes.set d (.dir parent (entries.insert name nodes.length)) ++ [Node.dir d ∅])[i]? =
        some (.dir parent' entries'') →
      (∃ entries, nodes[i]? = some (.dir parent' entries)) ∨ i = nodes.length ∧ parent' = d := by
    intro i parent' entries'' hi
    rw [List.getElem?_append, List.length_set] at hi
    split_ifs at hi with hlt
    · by_cases heq : i = d
      · rw [heq, List.getElem?_set_self hd] at hi
        cases hi
        exact .inl ⟨entries, heq ▸ h⟩
      · rw [List.getElem?_set_ne (Ne.symm heq)] at hi
        exact .inl ⟨entries'', hi⟩
    · rw [List.getElem?_singleton] at hi
      split_ifs at hi with hzero
      cases hi
      exact .inr ⟨by omega, rfl⟩
  have hclosed : ∀ d' other i, entryOf nodes d' other = some i → i ≠ nodes.length := by
    intro d' other i hold heq
    exact absurd (wf.closed d' other i hold) (by omega)
  obtain ⟨rank, hrank⟩ := wf.ranked
  constructor
  · rw [isDir_append (by rw [List.length_set]; exact isDir_lt wf.top), isDir_set h]
    exact wf.top
  · intro d' other i hi
    rw [hentry] at hi
    rw [hlength]
    split_ifs at hi
    · cases hi
      omega
    · exact Nat.lt_succ_of_lt (wf.closed d' other i hi)
  · intro i parent' entries'' hi
    rw [hlength]
    rcases hnode i parent' entries'' hi with ⟨entries, hold⟩ | ⟨-, rfl⟩
    · exact Nat.lt_succ_of_lt (wf.parents i parent' entries hold)
    · omega
  · intro d' other i parent' entries'' hi hdir
    rw [hentry] at hi
    split_ifs at hi with hboth
    · cases hi
      rcases hnode _ parent' entries'' hdir with ⟨entries, hold⟩ | ⟨-, rfl⟩
      · exact absurd (List.getElem?_eq_some_iff.mp hold).1 (by omega)
      · exact hboth.1.symm
    · rcases hnode i parent' entries'' hdir with ⟨entries, hold⟩ | ⟨heq, -⟩
      · exact wf.parent d' other i parent' entries hi hold
      · exact absurd heq (hclosed d' other i hi)
  · intro d' other other' i hi hi' hdir
    rw [hentry] at hi hi'
    split_ifs at hi with hboth
    · cases hi
      split_ifs at hi' with hboth'
      · rw [hboth.2, hboth'.2]
      · exact absurd rfl (hclosed d' other' _ hi')
    · split_ifs at hi' with hboth'
      · cases hi'
        exact absurd rfl (hclosed d' other _ hi)
      · obtain ⟨parent', entries'', hdir⟩ := isDir_iff.mp hdir
        rcases hnode i parent' entries'' hdir with ⟨entries, hold⟩ | ⟨heq, -⟩
        · exact wf.single d' other other' i hi hi' (isDir_of_dir hold)
        · exact absurd heq (hclosed d' other i hi)
  · refine ⟨fun i => if i = nodes.length then rank d + 1 else rank i, fun d' other i hi hdir => ?_⟩
    rw [hentry] at hi
    split_ifs at hi with hboth
    · cases hi
      dsimp only
      rw [if_pos rfl, hboth.1, if_neg (by omega)]
      omega
    · have hne := hclosed d' other i hi
      dsimp only
      rw [if_neg hne, if_neg (Nat.ne_of_lt (entryOf_lt hi))]
      obtain ⟨parent', entries'', hdir⟩ := isDir_iff.mp hdir
      rcases hnode i parent' entries'' hdir with ⟨entries, hold⟩ | ⟨heq, -⟩
      · exact hrank d' other i hi (isDir_of_dir hold)
      · exact absurd heq hne

end Kept

section Steps

variable {nodes nodes' : List Node} {d i : ℕ} {name newName : Name} {node : Node}
  {change : List UInt8 → List UInt8}

theorem unlinkAt_eq_ok (h : unlinkAt nodes d name = .ok nodes') :
    ∃ parent entries i, nodes[d]? = some (.dir parent entries) ∧ entries.lookup name = some i ∧
      isDir nodes i = false ∧ nodes' = nodes.set d (.dir parent (entries.erase name)) := by
  unfold unlinkAt at h
  split at h
  · rename_i parent entries hd
    split at h
    · cases h
    · rename_i i hi
      split_ifs at h with hdir
      cases h
      exact ⟨parent, entries, i, hd, hi, by simpa using hdir, rfl⟩
  · cases h

theorem addAt_eq_ok (h : addAt nodes d name node = .ok nodes') :
    ∃ parent entries, nodes[d]? = some (.dir parent entries) ∧ entries.lookup name = none ∧
      nodes' = nodes.set d (.dir parent (entries.insert name nodes.length)) ++ [node] := by
  unfold addAt at h
  split at h
  · rename_i parent entries hd
    split at h
    · rename_i hname
      cases h
      exact ⟨parent, entries, hd, hname, rfl⟩
    · cases h
  · cases h

theorem writeAt_eq_ok (h : writeAt nodes i change = .ok nodes') :
    ∃ bytes, nodes[i]? = some (.file bytes) ∧ nodes' = nodes.set i (.file (change bytes)) := by
  unfold writeAt at h
  split at h
  · rename_i bytes hi
    cases h
    exact ⟨bytes, hi, rfl⟩
  · cases h

theorem renameAt_eq_ok (h : renameAt nodes d name newName = .ok nodes') :
    ∃ parent entries i, nodes[d]? = some (.dir parent entries) ∧ entries.lookup name = some i ∧
      isDir nodes i = false ∧ (∀ j, entries.lookup newName = some j → isDir nodes j = false) ∧
      (entries.lookup newName = some i ∧ nodes' = nodes ∨
        nodes' = nodes.set d (.dir parent ((entries.erase name).insert newName i))) := by
  unfold renameAt at h
  split at h
  · rename_i parent entries hd
    split at h
    · cases h
    · rename_i i hi
      split_ifs at h with hdir hnew hsame
      · cases h
        exact ⟨parent, entries, i, hd, hi, by simpa using hdir,
          fun j hj => by simpa [hj] using hnew, .inl ⟨hsame, rfl⟩⟩
      · cases h
        exact ⟨parent, entries, i, hd, hi, by simpa using hdir,
          fun j hj => by simpa [hj] using hnew, .inr rfl⟩
  · cases h

theorem lookup_of_erase {entries : Entries} {name other : Name} {i : ℕ}
    (h : (entries.erase name).lookup other = some i) : entries.lookup other = some i := by
  by_cases heq : other = name
  · rw [heq, AList.lookup_erase] at h
    cases h
  · rwa [AList.lookup_erase_ne heq] at h

theorem WellFormed.unlinkAt (wf : WellFormed nodes) (h : unlinkAt nodes d name = .ok nodes') :
    WellFormed nodes' := by
  obtain ⟨parent, entries, i, hd, -, -, rfl⟩ := unlinkAt_eq_ok h
  exact wf.setDir hd fun other j hj => .inl (lookup_of_erase hj)

theorem WellFormed.makeDirAt (wf : WellFormed nodes) (h : makeDirAt nodes d name = .ok nodes') :
    WellFormed nodes' := by
  obtain ⟨parent, entries, hd, -, rfl⟩ := addAt_eq_ok h
  exact wf.add_dir hd

theorem WellFormed.createAt (wf : WellFormed nodes) (h : createAt nodes d name = .ok nodes') :
    WellFormed nodes' := by
  obtain ⟨parent, entries, hd, -, rfl⟩ := addAt_eq_ok h
  have hlt : d < nodes.length := (List.getElem?_eq_some_iff.mp hd).1
  have hswap : nodes.set d (.dir parent (entries.insert name nodes.length)) ++ [Node.file []] =
      (nodes ++ [Node.file []]).set d (.dir parent (entries.insert name nodes.length)) :=
    (List.set_append_left d _ hlt).symm
  rw [hswap]
  refine (wf.append_file []).setDir ((List.getElem?_append_left hlt).trans hd) fun other j hj => ?_
  by_cases heq : other = name
  · rw [heq, AList.lookup_insert] at hj
    cases hj
    exact .inr ⟨by simp, by simp [isDir]⟩
  · rw [AList.lookup_insert_ne heq] at hj
    exact .inl hj

theorem WellFormed.writeAt (wf : WellFormed nodes) (h : writeAt nodes i change = .ok nodes') :
    WellFormed nodes' := by
  obtain ⟨bytes, hi, rfl⟩ := writeAt_eq_ok h
  exact wf.set_file hi

theorem WellFormed.renameAt (wf : WellFormed nodes) (h : renameAt nodes d name newName = .ok nodes') :
    WellFormed nodes' := by
  obtain ⟨parent, entries, i, hd, hi, hfile, -, ⟨-, rfl⟩ | rfl⟩ := renameAt_eq_ok h
  · exact wf
  · refine wf.setDir hd fun other j hj => ?_
    by_cases heq : other = newName
    · rw [heq, AList.lookup_insert] at hj
      cases hj
      exact .inr ⟨wf.closed d name i ((entryOf_dir hd).trans hi), hfile⟩
    · rw [AList.lookup_insert_ne heq] at hj
      exact .inl (lookup_of_erase hj)

end Steps

section Edges

variable {nodes : List Node} {d i : ℕ} {name : Name}

def Node.entries : Node → List (Name × ℕ)
  | .dir _ entries => entries.entries.map fun entry => (entry.1, entry.2)
  | _ => []

def Node.parent : Node → Option ℕ
  | .dir parent _ => some parent
  | _ => none

-- The entries of all the directories, each with its directory.
def edges (nodes : List Node) : List (ℕ × Name × ℕ) :=
  nodes.zipIdx.flatMap fun place => place.1.entries.map fun entry => (place.2, entry)

theorem mem_edges (h : entryOf nodes d name = some i) : (d, name, i) ∈ edges nodes := by
  obtain ⟨parent, entries, hd⟩ := isDir_iff.mp (isDir_of_entryOf h)
  rw [entryOf_dir hd] at h
  have hentry := AList.mem_lookup_iff.mp h
  refine List.mem_flatMap.mpr ⟨(.dir parent entries, d), List.mem_zipIdx_iff_getElem?.mpr hd, ?_⟩
  exact List.mem_map.mpr ⟨(name, i), List.mem_map.mpr ⟨⟨name, i⟩, hentry, rfl⟩, rfl⟩

-- Nodes of which each directory comes after the only one that has it.
def Ordered (nodes : List Node) : Prop :=
  isDir nodes 0 = true ∧ (∀ node ∈ nodes, node.parent.all (· < nodes.length) = true) ∧
    ∀ edge ∈ edges nodes, edge.2.2 < nodes.length ∧
      (isDir nodes edge.2.2 = true → edge.1 < edge.2.2 ∧ nodes[edge.2.2]?.bind Node.parent = some edge.1 ∧
        ∀ edge' ∈ edges nodes, edge'.2.2 = edge.2.2 → edge' = edge)

instance (nodes : List Node) : Decidable (Ordered nodes) := inferInstanceAs (Decidable (_ ∧ _ ∧ _))

theorem Ordered.wellFormed (h : Ordered nodes) : WellFormed nodes := by
  obtain ⟨htop, hparents, hedges⟩ := h
  constructor
  · exact htop
  · exact fun d name i hentry => (hedges _ (mem_edges hentry)).1
  · intro i parent entries hi
    simpa [Node.parent] using hparents _ (List.mem_of_getElem? hi)
  · intro d name i parent entries hentry hi
    have hparent := ((hedges _ (mem_edges hentry)).2 (isDir_of_dir hi)).2.1
    rw [hi] at hparent
    exact Option.some.inj hparent
  · intro d name name' i hentry hentry' hi
    have hsame := ((hedges _ (mem_edges hentry)).2 hi).2.2 _ (mem_edges hentry') rfl
    exact (congrArg (·.2.1) hsame).symm
  · exact ⟨id, fun d name i hentry hi => ((hedges _ (mem_edges hentry)).2 hi).1⟩

end Edges

section OnFs

-- A change of the nodes as one of the files.
def Fs.change (f : List Node → Except OsError (List Node))
    (hf : ∀ nodes nodes', WellFormed nodes → f nodes = .ok nodes' → WellFormed nodes') (fs : Fs) :
    Except OsError Fs :=
  match h : f fs.nodes with
  | .ok nodes' => .ok ⟨nodes', hf fs.nodes nodes' fs.wellFormed h⟩
  | .error e => .error e

theorem Fs.change_eq_ok {f : List Node → Except OsError (List Node)}
    {hf : ∀ nodes nodes', WellFormed nodes → f nodes = .ok nodes' → WellFormed nodes'} {fs fs' : Fs} :
    fs.change f hf = .ok fs' ↔ f fs.nodes = .ok fs'.nodes := by
  unfold Fs.change
  constructor
  · intro h
    split at h
    · rename_i nodes' hnodes
      cases h
      exact hnodes
    · cases h
  · intro h
    split
    · rename_i nodes' hnodes
      rw [hnodes] at h
      exact congrArg Except.ok (Fs.eq_of_nodes (Except.ok.inj h))
    · rename_i e he
      rw [he] at h
      cases h

end OnFs

end Basis.Posix
