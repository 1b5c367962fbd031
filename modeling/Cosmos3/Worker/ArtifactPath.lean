import Cosmos3.Edge.Containment
import Cosmos3.Worker.Generation

namespace Cosmos3.Worker

open Basis Basis.Python Edge Jobs

section Names

-- A unit that no path separator, scheme or terminator has.
def IsNameUnit (u : UInt16) : Prop := u < 0x80 ∧ u ≠ 0 ∧ u ≠ 47 ∧ u ≠ 58

instance (u : UInt16) : Decidable (IsNameUnit u) := inferInstanceAs (Decidable (_ ∧ _))

theorem isNameUnit_safeName (job : Text) : ∀ u ∈ safeName job, IsNameUnit u := by
  have hsafe : ∀ c < 128, isSafeUnit c.toUInt16 = true → IsNameUnit c.toUInt16 := by decide
  have hdefault : (ascii "artifact").all (fun u => decide (IsNameUnit u)) = true := by decide
  intro u hu
  unfold safeName at hu
  dsimp only at hu
  split_ifs at hu
  · exact of_decide_eq_true (List.all_eq_true.mp hdefault u hu)
  · obtain ⟨c, -, rfl⟩ := List.mem_map.mp hu
    split_ifs with hc
    · exact hsafe c hc.1 hc.2
    · decide

-- What follows has neither the colon nor the slashes of a scheme.
theorem isPrefixOf_append {rest name : Text} (hslash : (47 : UInt16) ∉ name) (hcolon : (58 : UInt16) ∉ name) :
    (ascii "://").isPrefixOf (rest ++ name) = (ascii "://").isPrefixOf rest := by
  have hscheme : ascii "://" = [58, 47, 47] := by decide
  rw [hscheme]
  cases name with
  | nil => rw [List.append_nil]
  | cons u name =>
      have hu : 47 ≠ u ∧ 58 ≠ u := by
        constructor
        · rintro rfl
          exact hslash List.mem_cons_self
        · rintro rfl
          exact hcolon List.mem_cons_self
      match rest with
      | [] => simp [List.isPrefixOf, hu]
      | [x] => simp [List.isPrefixOf, hu]
      | [x, y] => simp [List.isPrefixOf, hu]
      | x :: y :: z :: rest => simp [List.isPrefixOf]

theorem hasScheme_append {front name : Text} (hname : ∀ u ∈ name, IsNameUnit u) :
    hasScheme (front ++ name) = hasScheme front := by
  have hslash : (47 : UInt16) ∉ name := fun h => (hname 47 h).2.2.1 rfl
  have hcolon : (58 : UInt16) ∉ name := fun h => (hname 58 h).2.2.2 rfl
  have hdrop : ∀ {rest : Text}, rest <:+ name → (ascii "://").isPrefixOf rest = false := fun {rest} hrest =>
    @isPrefixOf_append [] rest (fun h => hslash (hrest.mem h)) fun h => hcolon (hrest.mem h)
  cases front with
  | nil =>
      cases name with
      | nil => rfl
      | cons u name =>
          have hrest := hdrop ((List.dropWhile_suffix isSchemeUnit).trans (List.suffix_cons u name))
          change hasScheme (u :: name) = false
          rw [hasScheme, hrest, Bool.and_false]
  | cons u front =>
      rw [List.cons_append, hasScheme, hasScheme, List.dropWhile_append]
      split_ifs with hempty
      · rw [hdrop (List.dropWhile_suffix _), List.isEmpty_iff.mp hempty]
        rfl
      · rw [isPrefixOf_append hslash hcolon]

theorem isRemote_append {front name : Text} (hname : ∀ u ∈ name, IsNameUnit u) :
    isRemote (front ++ name) = isRemote front := by
  have hzero : name.contains 0 = false := by
    simp only [List.contains_eq_mem, decide_eq_false_iff_not]
    exact fun h => (hname 0 h).2.1 rfl
  rw [isRemote, isRemote, hasScheme_append hname, List.contains_append, hzero, Bool.or_false]

theorem encodable_append {front name : Text} (hname : ∀ u ∈ name, IsNameUnit u) :
    encodable (front ++ name) = encodable front := by
  induction name generalizing front with
  | nil => rw [List.append_nil]
  | cons u name ih =>
      obtain ⟨hu, hrest⟩ := List.forall_mem_cons.mp hname
      have hlt : u < 0xD800 := UInt16.lt_trans hu.1 (by decide)
      have hunit : encodable (front ++ [u]) = encodable front := by
        have hsmall : u.toNat < 128 := hu.1
        rw [encodable, codePoints_append hlt, encodable, List.all_append]
        simp [codePoints]
        omega
      rw [List.append_cons, ih hrest, hunit]

end Names

section Paths

variable {around : Surroundings} {record : JobRecord} {ext : String} {path : Text}

def artifactExts : List String := ["png", "mp4", "json"]

def artifactName (record : JobRecord) (ext : String) : Text :=
  safeName record.id ++ ascii "." ++ ascii ext

-- Where the files of a job end up.
def artifactFile (around : Surroundings) (record : JobRecord) (ext : String) : Text :=
  joinPath (around.files.resolve around.directory.text) (artifactName record ext)

-- The names of a job's files are no symbolic links in the artifact directory.
def Unlinked (around : Surroundings) (record : JobRecord) : Prop :=
  ∀ ext ∈ artifactExts, around.files.resolve (joinPath around.directory.text (artifactName record ext)) =
    artifactFile around record ext

theorem isNameUnit_artifactName (record : JobRecord) (hext : ext ∈ artifactExts) :
    ∀ u ∈ artifactName record ext, IsNameUnit u := by
  have hdot : artifactExts.all (fun e => (ascii "." ++ ascii e).all fun u => decide (IsNameUnit u)) =
      true := by decide
  intro u hu
  rw [artifactName, List.append_assoc] at hu
  rcases List.mem_append.mp hu with hu | hu
  · exact isNameUnit_safeName record.id u hu
  · exact of_decide_eq_true (List.all_eq_true.mp (List.all_eq_true.mp hdot ext hext) u hu)

theorem artifactName_ne_nil : artifactName record ext ≠ [] := by
  have hdot : ascii "." ≠ [] := by decide
  simp [artifactName, hdot]

theorem joinPath_eq (parent name : Text) :
    joinPath parent name =
      (if parent = [] ∨ parent.getLast? = some 47 then parent else parent ++ ascii "/") ++ name := by
  unfold joinPath
  split_ifs <;> rfl

theorem isWithin_joinPath {root name : Text} (hname : ∀ u ∈ name, IsNameUnit u) (hne : name ≠ []) :
    isWithin (joinPath root name) root = !decide (root = [] ∨ root.getLast? = some 47) := by
  have hhead : (ascii "/").isPrefixOf name = false := by
    cases name with
    | nil => exact absurd rfl hne
    | cons u name =>
        have hu : (47 : UInt16) ≠ u := fun h => (hname u List.mem_cons_self).2.2.1 h.symm
        have hslash : ascii "/" = [47] := by decide
        simp [hslash, List.isPrefixOf, hu]
  rw [joinPath]
  by_cases hroot : root = [] ∨ root.getLast? = some 47
  · rw [if_pos hroot, isWithin, decide_eq_true hroot]
    have hfront : (root ++ ascii "/").isPrefixOf (root ++ name) = false := by
      rw [Bool.eq_false_iff, ne_eq, List.isPrefixOf_iff_prefix, List.prefix_append_right_inj,
        ← List.isPrefixOf_iff_prefix, hhead]
      simp
    simp [hfront, hne]
  · rw [if_neg hroot, isWithin, decide_eq_false hroot]
    have hfront : (root ++ ascii "/").isPrefixOf (root ++ ascii "/" ++ name) = true :=
      List.isPrefixOf_iff_prefix.mpr (List.prefix_append _ _)
    simp only [hfront, Bool.or_true, Bool.not_false]

-- The artifact directory as it stands before a name.
def directoryFront (around : Surroundings) : Text :=
  if around.directory.text = [] ∨ around.directory.text.getLast? = some 47 then around.directory.text
  else around.directory.text ++ ascii "/"

-- Whether the artifact directory takes a file has nothing to do with the file's name.
def TakesFiles (around : Surroundings) : Prop :=
  isRemote (directoryFront around) = false ∧ encodable (directoryFront around) = true ∧
    ¬(around.files.resolve around.directory.text = [] ∨
      (around.files.resolve around.directory.text).getLast? = some 47)

theorem artifactPath_eq_ok (hplain : Unlinked around record) (hext : ext ∈ artifactExts) :
    artifactPath around record ext = .ok path ↔
      TakesFiles around ∧ path = artifactFile around record ext := by
  have hname := isNameUnit_artifactName record hext
  have hjoin : joinPath around.directory.text (artifactName record ext) =
      directoryFront around ++ artifactName record ext := joinPath_eq _ _
  have htrusted : isTrusted around.files (joinPath around.directory.text (artifactName record ext))
      [around.directory] = !decide (around.files.resolve around.directory.text = [] ∨
        (around.files.resolve around.directory.text).getLast? = some 47) := by
    rw [isTrusted, List.any_cons, List.any_nil, Bool.or_false, hplain ext hext]
    exact isWithin_joinPath hname artifactName_ne_nil
  have hpath : artifactPath around record ext = resolveWithin around.files
      (joinPath around.directory.text (artifactName record ext)) [around.directory] := rfl
  rw [hpath, resolveWithin_eq, htrusted, hplain ext hext, hjoin, isRemote_append hname,
    encodable_append hname, TakesFiles]
  split_ifs with hremote hencodable hroot
  · simp [hremote]
  · simp [hencodable]
  · simp only [Bool.not_eq_true', decide_eq_false_iff_not] at hroot
    rw [Except.ok.injEq]
    refine ⟨fun h => ⟨⟨?_, ?_, hroot⟩, h.symm⟩, fun h => h.2.symm⟩
    · simpa using hremote
    · simpa using hencodable
  · have htop : around.files.resolve around.directory.text = [] ∨
        (around.files.resolve around.directory.text).getLast? = some 47 := by
      by_contra hnot
      exact hroot (by rw [decide_eq_false hnot]; rfl)
    exact iff_of_false (by simp) fun h => h.1.2.2 htop

theorem artifactFile_injective {other : String} (hext : ext ∈ artifactExts) (hother : other ∈ artifactExts)
    (h : artifactFile around record ext = artifactFile around record other) : ext = other := by
  have hinj : ∀ e ∈ artifactExts, ∀ e' ∈ artifactExts, ascii e = ascii e' → e = e' := by
    simp only [artifactExts, List.forall_mem_cons, List.not_mem_nil, false_implies, implies_true, and_true]
    decide
  rw [artifactFile, artifactFile, joinPath_eq, joinPath_eq, List.append_cancel_left_eq, artifactName,
    artifactName, List.append_cancel_left_eq] at h
  exact hinj ext hext other hother h

end Paths

end Cosmos3.Worker
