import Mathlib.Data.List.Infix

namespace Basis

section Parts

variable {α : Type} {sep : α}

-- The parts of a path, each behind a separator.
def joinParts (sep : α) (parts : List (List α)) : List α := parts.flatMap fun part => sep :: part

-- An absolute path. The one without parts is the root.
def absolutePath (sep : α) (parts : List (List α)) : List α :=
  if parts.isEmpty then [sep] else joinParts sep parts

def Separated (sep : α) (parts : List (List α)) : Prop := ∀ part ∈ parts, sep ∉ part

theorem joinParts_cons (part : List α) (parts : List (List α)) :
    joinParts sep (part :: parts) = sep :: (part ++ joinParts sep parts) := by
  rw [joinParts, List.flatMap_cons, joinParts, List.cons_append]

theorem absolutePath_cons (part : List α) (parts : List (List α)) :
    absolutePath sep (part :: parts) = sep :: (part ++ joinParts sep parts) := joinParts_cons part parts

-- What follows the first part of a path starts with a separator, if there is anything.
theorem joinParts_cases (sep : α) (parts : List (List α)) :
    joinParts sep parts = [] ∨ ∃ rest, joinParts sep parts = sep :: rest := by
  cases parts with
  | nil => exact .inl rfl
  | cons part parts => exact .inr ⟨_, joinParts_cons part parts⟩

theorem prefix_of_separated {first second front back : List α} (hfirst : sep ∉ first) (hsecond : sep ∉ second)
    (hback : back = [] ∨ ∃ rest, back = sep :: rest)
    (h : first ++ sep :: front <+: second ++ back) : first = second ∧ sep :: front <+: back := by
  induction first generalizing second with
  | nil =>
      cases second with
      | nil => exact ⟨rfl, h⟩
      | cons x second =>
          rw [List.nil_append, List.cons_append, List.cons_prefix_cons] at h
          exact absurd (h.1 ▸ List.mem_cons_self) hsecond
  | cons x first ih =>
      cases second with
      | nil =>
          rcases hback with rfl | ⟨rest, rfl⟩
          · rw [List.nil_append, List.prefix_nil] at h
            cases h
          · rw [List.nil_append, List.cons_append, List.cons_prefix_cons] at h
            exact absurd (h.1 ▸ List.mem_cons_self) hfirst
      | cons y second =>
          rw [List.cons_append, List.cons_append, List.cons_prefix_cons] at h
          obtain ⟨rfl, hrest⟩ := ih (fun hmem => hfirst (List.mem_cons_of_mem x hmem))
            (fun hmem => hsecond (List.mem_cons_of_mem y hmem)) h.2
          exact ⟨by rw [h.1], hrest⟩

-- With a separator behind it a path is a prefix of those that go on below it.
theorem joinParts_prefix_iff {root parts : List (List α)} (hroot : Separated sep root)
    (hparts : Separated sep parts) :
    joinParts sep root ++ [sep] <+: joinParts sep parts ↔ ∃ part rest, parts = root ++ part :: rest := by
  induction root generalizing parts with
  | nil =>
      cases parts with
      | nil => simp [joinParts]
      | cons part parts =>
          rw [joinParts_cons, joinParts, List.flatMap_nil, List.nil_append, List.cons_prefix_cons]
          exact iff_of_true ⟨rfl, List.nil_prefix⟩ ⟨part, parts, rfl⟩
  | cons first root ih =>
      obtain ⟨hfirst, hroot'⟩ := List.forall_mem_cons.mp hroot
      cases parts with
      | nil => simp [joinParts]
      | cons part parts =>
          obtain ⟨hpart, hparts'⟩ := List.forall_mem_cons.mp hparts
          have hgoes : ∃ front, joinParts sep root ++ [sep] = sep :: front := by
            rcases joinParts_cases sep root with hnil | ⟨rest, hrest⟩
            · exact ⟨[], by rw [hnil, List.nil_append]⟩
            · exact ⟨rest ++ [sep], by rw [hrest, List.cons_append]⟩
          rw [joinParts_cons, joinParts_cons, List.cons_append, List.cons_prefix_cons, List.append_assoc]
          constructor
          · rintro ⟨-, h⟩
            obtain ⟨front, hfront⟩ := hgoes
            rw [hfront] at h
            obtain ⟨hsame, hrest⟩ := prefix_of_separated hfirst hpart (joinParts_cases sep parts) h
            rw [← hfront] at hrest
            obtain ⟨next, rest, hnext⟩ := (ih hroot' hparts').mp hrest
            exact ⟨next, rest, by rw [hsame, hnext, List.cons_append]⟩
          · rintro ⟨next, rest, heq⟩
            rw [List.cons_append, List.cons.injEq] at heq
            refine ⟨rfl, ?_⟩
            rw [heq.1, List.prefix_append_right_inj]
            exact (ih hroot' hparts').mpr ⟨next, rest, heq.2⟩

theorem prefix_of_joinParts_eq {root parts : List (List α)} (hroot : Separated sep root)
    (hparts : Separated sep parts) (h : joinParts sep root = joinParts sep parts) : root <+: parts := by
  have hlonger : joinParts sep root ++ [sep] <+: joinParts sep (parts ++ [[]]) := by
    rw [h, joinParts, joinParts, List.flatMap_append]
    exact List.prefix_rfl
  have hseparated : Separated sep (parts ++ [[]]) := by
    intro part hpart
    rcases List.mem_append.mp hpart with hpart | hpart
    · exact hparts part hpart
    · rw [List.mem_singleton.mp hpart]
      exact List.not_mem_nil
  obtain ⟨next, rest, heq⟩ := (joinParts_prefix_iff hroot hseparated).mp hlonger
  have hlength : root.length ≤ parts.length := by
    have hlengths := congrArg List.length heq
    simp only [List.length_append, List.length_cons, List.length_nil] at hlengths
    omega
  exact List.prefix_of_prefix_length_le ⟨next :: rest, heq.symm⟩ (List.prefix_append parts [[]]) hlength

theorem joinParts_inj {root parts : List (List α)} (hroot : Separated sep root)
    (hparts : Separated sep parts) : joinParts sep root = joinParts sep parts ↔ root = parts := by
  refine ⟨fun h => ?_, congrArg (joinParts sep)⟩
  have hforth := prefix_of_joinParts_eq hroot hparts h
  exact hforth.eq_of_length (Nat.le_antisymm hforth.length_le
    (prefix_of_joinParts_eq hparts hroot h.symm).length_le)

-- A path is that of a root or below it.
theorem joinParts_within_iff {root parts : List (List α)} (hroot : Separated sep root)
    (hparts : Separated sep parts) :
    joinParts sep parts = joinParts sep root ∨ joinParts sep root ++ [sep] <+: joinParts sep parts ↔
      root <+: parts := by
  rw [joinParts_inj hparts hroot, joinParts_prefix_iff hroot hparts]
  constructor
  · rintro (rfl | ⟨part, rest, rfl⟩)
    · exact List.prefix_rfl
    · exact List.prefix_append _ _
  · rintro ⟨rest, rfl⟩
    cases rest with
    | nil => exact .inl (List.append_nil root)
    | cons part rest => exact .inr ⟨part, rest, rfl⟩

end Parts

end Basis
