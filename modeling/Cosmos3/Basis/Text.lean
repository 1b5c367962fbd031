import Mathlib.Data.List.Basic

namespace Basis

-- A text is the list of its UTF-16 code units.
abbrev Text := List UInt16

instance : LawfulBEq Text := inferInstance

def ascii (s : String) : Text := s.toList.map fun c => c.toNat.toUInt16

def cr : UInt16 := 13

def lf : UInt16 := 10

-- The text of a natural number, and the number a text of digits names.
def decimal (n : Nat) : Text := (Nat.toDigits 10 n).map fun c => c.toNat.toUInt16

def isDecimalDigit (u : UInt16) : Bool := 48 ≤ u && u ≤ 57

def ofDecimal (t : Text) : Nat := t.foldl (fun n u => 10 * n + (u.toNat - 48)) 0

theorem decimal_ne_nil (n : Nat) : decimal n ≠ [] := by
  simp [decimal, Nat.toDigits_ne_nil]

theorem decimal_eq (n : Nat) :
    decimal n = if n < 10 then [(48 + n).toUInt16]
      else decimal (n / 10) ++ [(48 + n % 10).toUInt16] := by
  have hdigit : ∀ d < 10, (Nat.digitChar d).toNat.toUInt16 = (48 + d).toUInt16 := by decide
  rw [decimal, Nat.toDigits_eq_if (by omega)]
  by_cases h : n < 10
  · rw [if_pos h, if_pos h, List.map_singleton, hdigit n h]
  · rw [if_neg h, if_neg h, List.map_append, List.map_singleton,
      hdigit _ (Nat.mod_lt n (by omega)), decimal]

theorem isDecimalDigit_of_mem {n : Nat} {u : UInt16} (h : u ∈ decimal n) :
    isDecimalDigit u = true := by
  have hdigit : ∀ d < 10, isDecimalDigit (48 + d).toUInt16 = true := by decide
  induction n using Nat.strongRecOn with
  | _ n ih =>
      rw [decimal_eq] at h
      by_cases hn : n < 10
      · rw [if_pos hn, List.mem_singleton] at h
        exact h ▸ hdigit n hn
      · rw [if_neg hn, List.mem_append, List.mem_singleton] at h
        rcases h with h | h
        · exact ih (n / 10) (by omega) h
        · exact h ▸ hdigit _ (Nat.mod_lt n (by omega))

theorem ofDecimal_decimal (n : Nat) : ofDecimal (decimal n) = n := by
  have hdigit : ∀ d < 10, ((48 + d).toUInt16).toNat - 48 = d := by decide
  induction n using Nat.strongRecOn with
  | _ n ih =>
      rw [decimal_eq]
      by_cases hn : n < 10
      · rw [if_pos hn, ofDecimal, List.foldl_cons, List.foldl_nil, hdigit n hn]
        omega
      · have hrest : (decimal (n / 10)).foldl (fun n u => 10 * n + (u.toNat - 48)) 0 = n / 10 :=
          ih (n / 10) (by omega)
        rw [if_neg hn, ofDecimal, List.foldl_append, hrest, List.foldl_cons, List.foldl_nil,
          hdigit _ (Nat.mod_lt n (by omega))]
        omega

theorem notMem_decimal {u : UInt16} (h : isDecimalDigit u = false) (n : Nat) : u ∉ decimal n := by
  intro hmem
  exact Bool.false_ne_true (h.symm.trans (isDecimalDigit_of_mem hmem))

theorem length_decimal_le (n : Nat) : (decimal n).length ≤ n + 1 := by
  induction n using Nat.strongRecOn with
  | _ n ih =>
      rw [decimal_eq]
      by_cases hn : n < 10
      · rw [if_pos hn, List.length_singleton]
        omega
      · have := ih (n / 10) (by omega)
        rw [if_neg hn, List.length_append, List.length_singleton]
        omega

section Lines

variable {α : Type*} [BEq α] {sep : α}

-- The lines of a text that goes on: the last line of the first part is
-- completed by the first line of the second.
theorem splitOn_append (first second : List α) :
    (first ++ second).splitOn sep = (first.splitOn sep).dropLast ++
      ((first.splitOn sep).getLast?.getD [] ++ second).splitOn sep := by
  induction first with
  | nil => simp [List.splitOn_nil]
  | cons x first ih =>
      rw [List.cons_append, List.splitOn_cons_eq_if_modifyHead, ih]
      have hne := List.splitOn_ne_nil sep first
      by_cases hx : x == sep
      · rw [if_pos hx, List.splitOn_cons_eq_if_modifyHead, if_pos hx,
          List.dropLast_cons_of_ne_nil hne, List.getLast?_cons_of_ne_nil hne]
        rfl
      · rw [if_neg hx, List.splitOn_cons_eq_if_modifyHead, if_neg hx]
        rcases hs : first.splitOn sep with _ | ⟨line, rest⟩
        · exact absurd hs hne
        · cases rest with
          | nil =>
              simp only [List.modifyHead_cons, List.dropLast_singleton, List.nil_append,
                List.getLast?_singleton, Option.getD_some, List.cons_append]
              rw [List.splitOn_cons_eq_if_modifyHead, if_neg hx]
          | cons next rest => simp [List.getLast?_cons_cons]

theorem dropLast_splitOn_append (first second : List α) :
    ((first ++ second).splitOn sep).dropLast = (first.splitOn sep).dropLast ++
      (((first.splitOn sep).getLast?.getD [] ++ second).splitOn sep).dropLast := by
  rw [splitOn_append, List.dropLast_append_of_ne_nil (List.splitOn_ne_nil sep _)]

theorem getLast?_splitOn_append (first second : List α) :
    ((first ++ second).splitOn sep).getLast? =
      (((first.splitOn sep).getLast?.getD [] ++ second).splitOn sep).getLast? := by
  rw [splitOn_append, List.getLast?_append_of_ne_nil _ (List.splitOn_ne_nil sep _)]

theorem mem_of_mem_splitOn {t line : List α} (hline : line ∈ t.splitOn sep) {u : α}
    (hu : u ∈ line) : u ∈ t := by
  induction t generalizing line with
  | nil =>
      rw [List.splitOn_nil, List.mem_singleton] at hline
      exact absurd hu (by simp [hline])
  | cons x t ih =>
      rw [List.splitOn_cons_eq_if_modifyHead] at hline
      by_cases hx : x == sep
      · rw [if_pos hx, List.mem_cons] at hline
        rcases hline with rfl | hline
        · simp at hu
        · exact List.mem_cons_of_mem x (ih hline hu)
      · rw [if_neg hx] at hline
        rcases hs : t.splitOn sep with _ | ⟨first, rest⟩
        · exact absurd hs (List.splitOn_ne_nil sep t)
        · rw [hs, List.modifyHead_cons, List.mem_cons] at hline
          rcases hline with rfl | hline
          · rcases List.mem_cons.mp hu with rfl | hu
            · exact List.mem_cons_self
            · exact List.mem_cons_of_mem x (ih (by rw [hs]; exact List.mem_cons_self) hu)
          · exact List.mem_cons_of_mem x
              (ih (by rw [hs]; exact List.mem_cons_of_mem first hline) hu)

theorem notMem_of_mem_splitOn [LawfulBEq α] {t line : List α} (hline : line ∈ t.splitOn sep) :
    sep ∉ line := by
  induction t generalizing line with
  | nil =>
      rw [List.splitOn_nil, List.mem_singleton] at hline
      simp [hline]
  | cons x t ih =>
      rw [List.splitOn_cons_eq_if_modifyHead] at hline
      by_cases hx : x == sep
      · rw [if_pos hx, List.mem_cons] at hline
        rcases hline with rfl | hline
        · simp
        · exact ih hline
      · rw [if_neg hx] at hline
        rcases hs : t.splitOn sep with _ | ⟨first, rest⟩
        · exact absurd hs (List.splitOn_ne_nil sep t)
        · rw [hs, List.modifyHead_cons, List.mem_cons] at hline
          rcases hline with rfl | hline
          · rw [List.mem_cons, not_or]
            refine ⟨fun h => hx (by simp [h]), ih (by rw [hs]; exact List.mem_cons_self)⟩
          · exact ih (by rw [hs]; exact List.mem_cons_of_mem first hline)

end Lines

end Basis
