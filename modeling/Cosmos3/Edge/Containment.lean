import Cosmos3.Basis.Components
import Cosmos3.Basis.Encode
import Cosmos3.Edge.Paths

namespace Cosmos3.Edge

open Basis Basis.Python

section Allowlist

def slash : UInt16 := 47

-- `os.pathsep`
def pathSeparator : UInt16 := 58

theorem encodable_of_mem {parts : List Text} {part : Text} (hpart : part ∈ parts)
    (h : encodable ([pathSeparator].intercalate parts) = true) : encodable part = true := by
  induction parts with
  | nil => exact absurd hpart List.not_mem_nil
  | cons first rest ih =>
      cases rest with
      | nil =>
          obtain rfl := List.mem_singleton.mp hpart
          simpa [List.intercalate] using h
      | cons second rest =>
          have hjoin : [pathSeparator].intercalate (first :: second :: rest) =
              first ++ pathSeparator :: [pathSeparator].intercalate (second :: rest) := by
            simp [List.intercalate]
          rw [hjoin, encodable, codePoints_append (by decide), List.all_append, List.all_cons, Bool.and_eq_true,
            Bool.and_eq_true] at h
          rcases List.mem_cons.mp hpart with rfl | hrest
          · exact h.1
          · exact ih hrest h.2.2

-- `tuple(raw.split(os.pathsep))`
def OsText.split (list : OsText) : List OsText :=
  (list.text.splitOn pathSeparator).attach.map fun part =>
    ⟨part.1, encodable_of_mem part.2 ((List.intercalate_splitOn pathSeparator).symm ▸ list.encodable)⟩

-- `_input_allowlist`
def inputAllowlist (raw : Option OsText) (directory : OsText) : List OsText :=
  match raw with
  | some list => if list.text = [] then [directory] else list.split
  | none => [directory]

end Allowlist

section Below

-- The names of a path.
def components (path : Text) : List Text := (path.splitOn slash).filter (· ≠ [])

-- The path of the root or one below it.
def Below (path root : Text) : Prop := components root <+: components path

instance (path root : Text) : Decidable (Below path root) := inferInstanceAs (Decidable (_ <+: _))

-- A normalised absolute path.
def Normal (path : Text) : Prop :=
  ∃ parts, Separated slash parts ∧ (∀ part ∈ parts, part ≠ [] ∧ part ≠ ascii "." ∧ part ≠ ascii "..") ∧
    path = absolutePath slash parts

theorem components_absolutePath {parts : List Text} (hparts : Separated slash parts)
    (hnames : ∀ part ∈ parts, part ≠ []) : components (absolutePath slash parts) = parts := by
  cases parts with
  | nil => rfl
  | cons part parts =>
      have hjoin : absolutePath slash (part :: parts) = [slash].intercalate ([] :: part :: parts) := by
        rw [absolutePath_cons]
        clear hparts hnames
        induction parts generalizing part with
        | nil => simp [List.intercalate, joinParts]
        | cons next parts ih =>
            rw [joinParts_cons, ih next]
            simp [List.intercalate]
      have hseparated : ∀ part' ∈ [] :: part :: parts, slash ∉ part' :=
        List.forall_mem_cons.mpr ⟨List.not_mem_nil, hparts⟩
      rw [hjoin, components, List.splitOn_intercalate slash hseparated (by simp)]
      rw [List.filter_cons_of_neg (by simp), List.filter_eq_self]
      exact fun name hname => decide_eq_true (hnames name hname)

-- The test on the texts is that of the components, except that nothing is within the root
-- directory but itself.
theorem isWithin_iff {candidate root : Text} (hcandidate : Normal candidate) (hroot : Normal root) :
    isWithin candidate root = true ↔ Below candidate root ∧ (root = ascii "/" → candidate = ascii "/") := by
  obtain ⟨parts, hparts, hnames, rfl⟩ := hcandidate
  obtain ⟨roots, hroots, hrootNames, rfl⟩ := hroot
  rw [Below, components_absolutePath hparts fun part hpart => (hnames part hpart).1,
    components_absolutePath hroots fun part hpart => (hrootNames part hpart).1, isWithin,
    Bool.or_eq_true, decide_eq_true_eq, List.isPrefixOf_iff_prefix]
  have hslash : ascii "/" = [slash] := rfl
  rw [hslash]
  cases roots with
  | nil =>
      have hroot : absolutePath slash [] = [slash] := rfl
      rw [hroot]
      cases parts with
      | nil => simp [absolutePath]
      | cons part parts =>
          obtain ⟨hpart, -⟩ := List.forall_mem_cons.mp hnames
          obtain ⟨hseparated, -⟩ := List.forall_mem_cons.mp hparts
          obtain ⟨u, rest, rfl⟩ := List.exists_cons_of_ne_nil hpart.1
          have hu : slash ≠ u := fun heq => hseparated (heq ▸ List.mem_cons_self)
          simp [absolutePath_cons, hu]
  | cons first roots =>
      obtain ⟨hfirst, -⟩ := List.forall_mem_cons.mp hrootNames
      have hne : absolutePath slash (first :: roots) ≠ [slash] := by
        rw [absolutePath_cons]
        simp [hfirst.1]
      cases parts with
      | nil =>
          have hcandidate : absolutePath slash [] = [slash] := rfl
          rw [hcandidate, absolutePath_cons]
          simp [hfirst.1]
      | cons part parts =>
          have hwithin := joinParts_within_iff hroots hparts
          have hjoin : ∀ (name : Text) (names : List Text),
              absolutePath slash (name :: names) = joinParts slash (name :: names) := fun _ _ => rfl
          rw [and_iff_left fun heq => absurd heq hne, hjoin, hjoin]
          exact hwithin

end Below

section Contains

variable (files : FileSystem) (path : Text) (raw : Option OsText) (directory : OsText)

-- The roots that the operator listed, without the empty ones. The artifact volume stands
-- for an absent or empty list.
def listedRoots : List OsText :=
  match raw with
  | some list => if list.text = [] then [directory] else list.split.filter (·.text ≠ [])
  | none => [directory]

-- The path is returned, resolved, when it is at or below one of them, and else refused.
def Contains : Prop :=
  resolveWithin files path (inputAllowlist raw directory) =
    if ∃ root ∈ listedRoots raw directory, Below (files.resolve path) (files.resolve root.text) then
      .ok (files.resolve path)
    else .error (.untrusted path (inputAllowlist raw directory))

-- What an empty entry lets in is let in by a listed root, and what the root directory has
-- to let in is itself or let in by another entry.
structure Plain : Prop where
  empty : ∀ root ∈ inputAllowlist raw directory, root.text = [] →
    isWithin (files.resolve path) (files.resolve root.text) = true →
    ∃ root ∈ listedRoots raw directory, Below (files.resolve path) (files.resolve root.text)
  top : ∀ root ∈ listedRoots raw directory, files.resolve root.text = ascii "/" →
    files.resolve path = ascii "/" ∨ ∃ other ∈ inputAllowlist raw directory,
      files.resolve other.text ≠ ascii "/" ∧ Below (files.resolve path) (files.resolve other.text)

variable {files path raw directory}

theorem mem_listedRoots_of_ne_nil {root : OsText} (h : root ∈ inputAllowlist raw directory)
    (hne : root.text ≠ []) : root ∈ listedRoots raw directory := by
  unfold inputAllowlist at h
  unfold listedRoots
  split at h
  · split_ifs at h ⊢ with hempty
    · exact h
    · exact List.mem_filter.mpr ⟨h, decide_eq_true hne⟩
  · exact h

theorem listedRoots_subset {root : OsText} (h : root ∈ listedRoots raw directory) :
    root ∈ inputAllowlist raw directory := by
  unfold listedRoots at h
  unfold inputAllowlist
  split at h
  · split_ifs at h ⊢ with hempty
    · exact h
    · exact (List.mem_filter.mp h).1
  · exact h

theorem contains_iff_trusted (hremote : isRemote path = false) (hencodable : encodable path = true) :
    Contains files path raw directory ↔
      (isTrusted files path (inputAllowlist raw directory) = true ↔
        ∃ root ∈ listedRoots raw directory, Below (files.resolve path) (files.resolve root.text)) := by
  rw [Contains, resolveWithin_eq, if_neg (by rw [hremote]; simp), if_neg (by rw [hencodable]; simp)]
  by_cases htrusted : isTrusted files path (inputAllowlist raw directory) = true
  · by_cases hlisted : ∃ root ∈ listedRoots raw directory,
      Below (files.resolve path) (files.resolve root.text)
    · rw [if_pos htrusted, if_pos hlisted]
      exact iff_of_true rfl (iff_of_true htrusted hlisted)
    · rw [if_pos htrusted, if_neg hlisted]
      exact iff_of_false (by simp) fun h => hlisted (h.mp htrusted)
  · by_cases hlisted : ∃ root ∈ listedRoots raw directory,
      Below (files.resolve path) (files.resolve root.text)
    · rw [if_neg htrusted, if_pos hlisted]
      exact iff_of_false (by simp) fun h => htrusted (h.mpr hlisted)
    · rw [if_neg htrusted, if_neg hlisted]
      exact iff_of_true rfl (iff_of_false htrusted hlisted)

theorem isTrusted_iff {allowlist : List OsText} : isTrusted files path allowlist = true ↔
    ∃ root ∈ allowlist, isWithin (files.resolve path) (files.resolve root.text) = true := by
  rw [isTrusted, List.any_eq_true]

theorem contains_iff (hnormal : ∀ path, encodable path = true → Normal (files.resolve path))
    (hremote : isRemote path = false) (hencodable : encodable path = true) :
    Contains files path raw directory ↔ Plain files path raw directory := by
  have hwithin : ∀ root : OsText, isWithin (files.resolve path) (files.resolve root.text) = true ↔
      Below (files.resolve path) (files.resolve root.text) ∧
        (files.resolve root.text = ascii "/" → files.resolve path = ascii "/") :=
    fun root => isWithin_iff (hnormal path hencodable) (hnormal root.text root.encodable)
  rw [contains_iff_trusted hremote hencodable, isTrusted_iff]
  constructor
  · intro h
    refine ⟨fun root hroot _ hin => h.mp ⟨root, hroot, hin⟩, fun root hroot htop => ?_⟩
    have hbelow : Below (files.resolve path) (files.resolve root.text) := by
      rw [htop]
      exact List.nil_prefix
    obtain ⟨other, hother, hin⟩ := h.mpr ⟨root, hroot, hbelow⟩
    by_cases hotherTop : files.resolve other.text = ascii "/"
    · exact .inl (((hwithin other).mp hin).2 hotherTop)
    · exact .inr ⟨other, hother, hotherTop, ((hwithin other).mp hin).1⟩
  · rintro ⟨hempty, htop⟩
    constructor
    · rintro ⟨root, hroot, hin⟩
      by_cases hnil : root.text = []
      · exact hempty root hroot hnil hin
      · exact ⟨root, mem_listedRoots_of_ne_nil hroot hnil, ((hwithin root).mp hin).1⟩
    · rintro ⟨root, hroot, hbelow⟩
      by_cases hrootTop : files.resolve root.text = ascii "/"
      · rcases htop root hroot hrootTop with hself | ⟨other, hother, hne, hin⟩
        · exact ⟨root, listedRoots_subset hroot, (hwithin root).mpr ⟨hbelow, fun _ => hself⟩⟩
        · exact ⟨other, hother, (hwithin other).mpr ⟨hin, fun heq => absurd heq hne⟩⟩
      · exact ⟨root, listedRoots_subset hroot, (hwithin root).mpr ⟨hbelow, fun heq => absurd heq hrootTop⟩⟩

end Contains

section Sample

-- Without symbolic links a path resolves to its names below the working directory `/app`.
def resolveNames : List Text → List Text → List Text
  | front, [] => front
  | front, name :: names =>
    if name = [] ∨ name = ascii "." then resolveNames front names
    else if name = ascii ".." then resolveNames front.dropLast names
    else resolveNames (front ++ [name]) names

def plainFiles : FileSystem where
  resolve path :=
    absolutePath slash (resolveNames (if path.head? = some slash then [] else [ascii "app"]) (path.splitOn slash))

theorem resolveNames_normal {front names : List Text}
    (hfront : ∀ name ∈ front, slash ∉ name ∧ name ≠ [] ∧ name ≠ ascii "." ∧ name ≠ ascii "..")
    (hnames : ∀ name ∈ names, slash ∉ name) :
    ∀ name ∈ resolveNames front names,
      slash ∉ name ∧ name ≠ [] ∧ name ≠ ascii "." ∧ name ≠ ascii ".." := by
  induction names generalizing front with
  | nil => exact hfront
  | cons name names ih =>
      obtain ⟨hname, hrest⟩ := List.forall_mem_cons.mp hnames
      rw [resolveNames]
      split_ifs with hskip hup
      · exact ih hfront hrest
      · exact ih (fun other hother => hfront other (List.dropLast_subset front hother)) hrest
      · refine ih (fun other hother => ?_) hrest
        rcases List.mem_append.mp hother with hother | hother
        · exact hfront other hother
        · obtain rfl := List.mem_singleton.mp hother
          exact ⟨hname, fun h => hskip (.inl h), fun h => hskip (.inr h), hup⟩

theorem plainFiles_normal (path : Text) : Normal (plainFiles.resolve path) := by
  have hnames : ∀ name ∈ path.splitOn slash, slash ∉ name := fun name hname => notMem_of_mem_splitOn hname
  have hfront : ∀ name ∈ (if path.head? = some slash then [] else [ascii "app"]),
      slash ∉ name ∧ name ≠ [] ∧ name ≠ ascii "." ∧ name ≠ ascii ".." := by
    split_ifs
    · simp
    · simp only [List.mem_singleton, forall_eq]
      decide
  have hall := resolveNames_normal hfront hnames
  exact ⟨_, fun name hname => (hall name hname).1, fun name hname => (hall name hname).2, rfl⟩

theorem contains_iff_plainFiles :
    Contains plainFiles (ascii "/data/in/a.png") (some ⟨ascii "/srv:/data", rfl⟩) ⟨ascii "/srv", rfl⟩ := by
  refine (contains_iff (fun path _ => plainFiles_normal path) (by decide) (by decide)).mpr ⟨?_, ?_⟩
  · decide
  · decide

-- An empty entry opens the working directory, and the root directory opens nothing.
theorem misread_allowlists :
    ¬Contains plainFiles (ascii "secrets/key.png") (some ⟨ascii ":/data", rfl⟩) ⟨ascii "/srv", rfl⟩ ∧
      ¬Contains plainFiles (ascii "/data/a.png") (some ⟨ascii "/", rfl⟩) ⟨ascii "/srv", rfl⟩ := by
  constructor
  · rw [contains_iff_trusted (by decide) (by decide)]
    decide
  · rw [contains_iff_trusted (by decide) (by decide)]
    decide

end Sample

end Cosmos3.Edge
