import Mathlib.Data.List.Nodup

namespace Basis

section Recent

variable {α κ : Type} [DecidableEq κ] (key : α → κ)

-- The items that no later one replaces.
def latest : List α → List α
  | [] => []
  | item :: later => if ∃ other ∈ later, key other = key item then latest later else item :: latest later

-- The newest comes first.
def recent (items : List α) : List α := (latest key items).reverse

-- An item goes to the front of a list of at most so many, in the place of one with its key.
def touch (bound : ℕ) (kept : List α) (item : α) : List α :=
  (item :: kept.filter (key · ≠ key item)).take bound

variable {key} {items kept : List α} {item : α}

theorem latest_concat (items : List α) (item : α) :
    latest key (items ++ [item]) = (latest key items).filter (key · ≠ key item) ++ [item] := by
  induction items with
  | nil => rfl
  | cons first items ih =>
      rw [List.cons_append, latest, latest, ih]
      by_cases hlater : ∃ other ∈ items, key other = key first
      · obtain ⟨other, hother, hkey⟩ := hlater
        rw [if_pos ⟨other, List.mem_append_left _ hother, hkey⟩, if_pos ⟨other, hother, hkey⟩]
      · rw [if_neg hlater]
        by_cases hitem : key first = key item
        · rw [if_pos ⟨item, by simp, hitem.symm⟩, List.filter_cons_of_neg (by simp [hitem])]
        · have hconcat : ¬∃ other ∈ items ++ [item], key other = key first := by
            rintro ⟨other, hother, hkey⟩
            rcases List.mem_append.mp hother with hother | hother
            · exact hlater ⟨other, hother, hkey⟩
            · exact hitem (List.mem_singleton.mp hother ▸ hkey.symm)
          rw [if_neg hconcat, List.filter_cons_of_pos (by simp [hitem]), List.cons_append]

theorem recent_concat (items : List α) (item : α) :
    recent key (items ++ [item]) = item :: (recent key items).filter (key · ≠ key item) := by
  rw [recent, latest_concat, List.reverse_append, List.reverse_singleton, List.singleton_append,
    ← List.filter_reverse, recent]

theorem latest_subset (items : List α) : latest key items ⊆ items := by
  induction items with
  | nil => exact fun _ h => h
  | cons first items ih =>
      rw [latest]
      split_ifs
      · exact List.subset_cons_of_subset first ih
      · exact List.cons_subset_cons first ih

theorem nodup_latest (items : List α) : ((latest key items).map key).Nodup := by
  induction items with
  | nil => exact List.nodup_nil
  | cons first items ih =>
      rw [latest]
      split_ifs with hlater
      · exact ih
      · refine List.nodup_cons.mpr ⟨fun hmem => hlater ?_, ih⟩
        obtain ⟨other, hother, hkey⟩ := List.mem_map.mp hmem
        exact ⟨other, latest_subset items hother, hkey⟩

theorem nodup_recent (items : List α) : ((recent key items).map key).Nodup := by
  rw [recent, List.map_reverse]
  exact List.nodup_reverse.mpr (nodup_latest items)

-- One item at most goes, so that what the bound cuts off makes no difference.
theorem take_filter_take (hkept : (kept.map key).Nodup) (bound : ℕ) :
    ((kept.take (bound + 1)).filter (key · ≠ key item)).take bound =
      (kept.filter (key · ≠ key item)).take bound := by
  induction kept generalizing bound with
  | nil => simp
  | cons first kept ih =>
      obtain ⟨hfirst, hrest⟩ := List.nodup_cons.mp hkept
      cases bound with
      | zero => rw [List.take_zero, List.take_zero]
      | succ bound =>
          by_cases hitem : key first = key item
          · have hother : ∀ other ∈ kept, decide (key other ≠ key item) = true := fun other hmem =>
              decide_eq_true fun hkey => hfirst (List.mem_map.mpr ⟨other, hmem, hkey.trans hitem.symm⟩)
            rw [List.take_succ_cons, List.filter_cons_of_neg (by simp [hitem]),
              List.filter_cons_of_neg (by simp [hitem]), List.filter_eq_self.mpr hother,
              List.filter_eq_self.mpr fun other hmem => hother other (List.mem_of_mem_take hmem),
              List.take_take, Nat.min_self]
          · rw [List.take_succ_cons, List.filter_cons_of_pos (by simp [hitem]),
              List.filter_cons_of_pos (by simp [hitem]), List.take_succ_cons, List.take_succ_cons, ih hrest]

theorem touch_recent (bound : ℕ) (items : List α) (item : α) :
    touch key bound ((recent key items).take bound) item = (recent key (items ++ [item])).take bound := by
  rw [touch, recent_concat]
  cases bound with
  | zero => rw [List.take_zero, List.take_zero]
  | succ bound => rw [List.take_succ_cons, List.take_succ_cons, take_filter_take (nodup_recent items)]

end Recent

end Basis
