import Cosmos3.Basis.PosixOps

namespace Basis.Posix

section Resolve

variable (nodes : List Node)

-- The link at a path below a directory, with no other link on the way.
def linkAt (root : ℕ) (path : List Name) : Option Target :=
  match (realEntry nodes root path).bind (nodes[·]?) with
  | some (.link target) => some target
  | _ => none

inductive Settled where
  | place (path : List Name)
  | link (up : List Name) (target : Target) (rest : List Component)

-- The way from a place, up to the first link on it. What is not there is taken as it is written.
def settle : List Name → List Component → Settled
  | here, [] => .place here
  | here, .self :: rest => settle here rest
  | here, .up :: rest => settle here.tail rest
  | here, .name name :: rest =>
    match linkAt nodes 0 (name :: here) with
    | some target => .link here target rest
    | none => settle (name :: here) rest

def Target.from (target : Target) (here : List Name) : List Name := if target.absolute then [] else here

-- `os.path.realpath`, through so many links at most.
def resolve : ℕ → List Name → List Component → Option (List Name)
  | 0, here, path =>
    match settle nodes here path with
    | .place place => some place
    | .link _ _ _ => none
  | budget + 1, here, path =>
    match settle nodes here path with
    | .place place => some place
    | .link up target rest => resolve budget (target.from up) (target.parts ++ rest)

end Resolve

section Facts

variable {nodes nodes' : List Node} {budget : ℕ} {here place : List Name} {path : List Component}

theorem resolve_of_place (h : settle nodes here path = .place place) (budget : ℕ) :
    resolve nodes budget here path = some place := by
  cases budget with
  | zero => rw [resolve, h]
  | succ budget => rw [resolve, h]

theorem resolve_succ (h : resolve nodes budget here path = some place) :
    resolve nodes (budget + 1) here path = some place := by
  induction budget generalizing here path with
  | zero =>
      rw [resolve] at h
      split at h
      · rename_i found hfound
        cases h
        exact resolve_of_place hfound 1
      · cases h
  | succ budget ih =>
      rw [resolve] at h
      split at h
      · rename_i found hfound
        cases h
        exact resolve_of_place hfound _
      · rename_i up target rest hlink
        rw [resolve, hlink]
        exact ih h

theorem resolve_mono {more : ℕ} (h : resolve nodes budget here path = some place) (hle : budget ≤ more) :
    resolve nodes more here path = some place := by
  induction hle with
  | refl => exact h
  | step _ ih => exact resolve_succ ih

-- A path has one place, whatever the budget.
theorem resolve_unique {budget' : ℕ} {place' : List Name} (h : resolve nodes budget here path = some place)
    (h' : resolve nodes budget' here path = some place') : place = place' := by
  have hleft := resolve_mono h (Nat.le_max_left budget budget')
  have hright := resolve_mono h' (Nat.le_max_right budget budget')
  exact Option.some.inj (hleft.symm.trans hright)

-- A place depends on the links alone.
theorem settle_congr (h : ∀ path, linkAt nodes' 0 path = linkAt nodes 0 path) (here : List Name)
    (path : List Component) : settle nodes' here path = settle nodes here path := by
  induction path generalizing here with
  | nil => rfl
  | cons component rest ih =>
      cases component with
      | self => exact ih here
      | up => exact ih here.tail
      | name name =>
          rw [settle, settle, h]
          cases hlink : linkAt nodes 0 (name :: here) with
          | none => exact ih (name :: here)
          | some target => rfl

theorem resolve_congr (h : ∀ path, linkAt nodes' 0 path = linkAt nodes 0 path) (budget : ℕ) (here : List Name)
    (path : List Component) : resolve nodes' budget here path = resolve nodes budget here path := by
  induction budget generalizing here path with
  | zero => rw [resolve, resolve, settle_congr h]
  | succ budget ih =>
      rw [resolve, resolve, settle_congr h]
      split
      · rfl
      · exact ih _ _

variable {root d i : ℕ} {name : Name} {up : List Name} {target : Target}

theorem linkAt_eq_some : linkAt nodes root up = some target ↔
    ∃ i, realEntry nodes root up = some i ∧ nodes[i]? = some (.link target) := by
  rw [linkAt]
  constructor
  · intro h
    split at h
    · rename_i found hfound
      cases h
      exact Option.bind_eq_some_iff.mp hfound
    · cases h
  · rintro ⟨i, hentry, hi⟩
    rw [hentry, Option.bind_some, hi]

theorem lstat_of_linkAt (h : linkAt nodes root (name :: up) = some target) :
    lstat nodes root (name :: up) = some (.link target) := by
  obtain ⟨i, hentry, hi⟩ := linkAt_eq_some.mp h
  obtain ⟨d, hup, hentry⟩ := Option.bind_eq_some_iff.mp hentry
  rw [lstat, below, stat, walk_realDir hup, Option.bind_some, hentry, Option.bind_some, hi]

end Facts

section Writes

variable {nodes nodes' : List Node} {d i : ℕ} {name : Name} {change : List UInt8 → List UInt8}

-- New files and new bytes make no link and take none away.
theorem linkAt_createAt (wf : WellFormed nodes) (h : createAt nodes d name = .ok nodes') (root : ℕ)
    (hroot : root < nodes.length) (path : List Name) : linkAt nodes' root path = linkAt nodes root path := by
  obtain ⟨-, hkept, hlast, hnew, hold, hentry⟩ := @addAt_effect nodes nodes' d name (.file []) trivial h
  have hd : isDir nodes d = true := by
    obtain ⟨parent, entries, hd, -⟩ := addAt_eq_ok h
    exact isDir_of_dir hd
  have hdirs := realDir_congr (hold root hroot).1 (filter_entryOf_createAt wf h)
  cases path with
  | nil => rfl
  | cons other up =>
      rw [linkAt, linkAt, realEntry, realEntry, hdirs]
      cases hup : realDir nodes root up with
      | none => rfl
      | some e =>
          rw [Option.bind_some, Option.bind_some, hentry]
          split_ifs with hboth
          · rw [hboth.1, hboth.2, hnew, Option.bind_some, hlast]
            rfl
          · cases hlookup : entryOf nodes e other with
            | none => rfl
            | some j =>
                have hlt := wf.closed e other j hlookup
                rw [Option.bind_some, Option.bind_some]
                by_cases hj : j = d
                · obtain ⟨parent, entries, hdir⟩ := isDir_iff.mp hd
                  obtain ⟨parent', entries', hdir'⟩ := isDir_iff.mp ((hold d (isDir_lt hd)).1.trans hd)
                  rw [hj, hdir, hdir']
                · rw [hkept j hlt hj]

theorem linkAt_writeAt (h : writeAt nodes i change = .ok nodes') (root : ℕ) (path : List Name) :
    linkAt nodes' root path = linkAt nodes root path := by
  obtain ⟨bytes, hi, rfl⟩ := writeAt_eq_ok h
  have hdirs := @realDir_congr nodes (nodes.set i (.file (change bytes))) root (isDir_set_file hi root)
    fun e other => by rw [entryOf_set_file hi, funext (isDir_set_file hi)]
  cases path with
  | nil => rfl
  | cons other up =>
      rw [linkAt, linkAt, realEntry, realEntry, hdirs]
      cases hup : realDir nodes root up with
      | none => rfl
      | some e =>
          rw [Option.bind_some, Option.bind_some, entryOf_set_file hi]
          cases hlookup : entryOf nodes e other with
          | none => rfl
          | some j =>
              rw [Option.bind_some, Option.bind_some]
              by_cases hj : j = i
              · rw [hj, hi, List.getElem?_set_self (List.getElem?_eq_some_iff.mp hi).1]
              · rw [List.getElem?_set_ne (Ne.symm hj)]

end Writes

end Basis.Posix
