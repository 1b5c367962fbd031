import Mathlib.Data.List.Nodup

namespace Basis

-- A `dict`: no key twice, in the order in which the keys came.
structure Table (κ α : Type) where
  fields : List (κ × α)
  nodup : (fields.map (·.1)).Nodup

namespace Table

variable {κ α : Type} [DecidableEq κ]

def empty : Table κ α := ⟨[], List.nodup_nil⟩

def keys (t : Table κ α) : List κ := t.fields.map (·.1)

def get (t : Table κ α) (key : κ) : Option α :=
  (t.fields.find? fun field => field.1 = key).map (·.2)

section Get

variable {t : Table κ α} {key : κ} {a : α}

theorem find_of_mem : {fields : List (κ × α)} → (fields.map (·.1)).Nodup → (key, a) ∈ fields →
    (fields.find? fun field => field.1 = key) = some (key, a)
  | field :: fields, hnodup, hmem => by
      rw [List.map_cons, List.nodup_cons] at hnodup
      rcases List.mem_cons.mp hmem with rfl | hmem
      · exact List.find?_cons_of_pos (by simp)
      · have hne : field.1 ≠ key := by
          rintro rfl
          exact hnodup.1 (List.mem_map_of_mem (f := (·.1)) hmem)
        rw [List.find?_cons_of_neg (by simpa using hne), find_of_mem hnodup.2 hmem]

theorem get_eq_some_iff : t.get key = some a ↔ (key, a) ∈ t.fields := by
  constructor
  · intro h
    obtain ⟨⟨key', a'⟩, hfind, rfl⟩ := Option.map_eq_some_iff.mp h
    have hkey : key' = key := by simpa using List.find?_some hfind
    exact hkey ▸ List.mem_of_find?_eq_some hfind
  · intro h
    rw [get, find_of_mem t.nodup h, Option.map_some]

theorem mem_keys_iff : key ∈ t.keys ↔ ∃ a, t.get key = some a := by
  simp only [keys, List.mem_map, get_eq_some_iff, Prod.exists, exists_and_right, exists_eq_right]

theorem get_eq_none_iff : t.get key = none ↔ key ∉ t.keys := by
  rw [mem_keys_iff, not_exists, Option.eq_none_iff_forall_ne_some]

@[simp] theorem get_empty : (empty : Table κ α).get key = none := rfl

end Get

section Set

def setFields (key : κ) (a : α) : List (κ × α) → List (κ × α)
  | [] => [(key, a)]
  | field :: fields =>
    if field.1 = key then (key, a) :: fields else field :: setFields key a fields

theorem map_setFields (key : κ) (a : α) (fields : List (κ × α)) :
    (setFields key a fields).map (·.1) =
      if key ∈ fields.map (·.1) then fields.map (·.1) else fields.map (·.1) ++ [key] := by
  induction fields with
  | nil => rfl
  | cons field fields ih =>
      rw [setFields]
      by_cases hkey : field.1 = key
      · simp [hkey]
      · rw [if_neg hkey, List.map_cons, ih, List.map_cons]
        by_cases hmem : key ∈ fields.map (·.1)
        · rw [if_pos hmem, if_pos (List.mem_cons_of_mem _ hmem)]
        · rw [if_neg hmem, if_neg (by simpa [Ne.symm hkey] using hmem), List.cons_append]

theorem nodup_setFields {key : κ} {a : α} {fields : List (κ × α)} (h : (fields.map (·.1)).Nodup) :
    ((setFields key a fields).map (·.1)).Nodup := by
  rw [map_setFields]
  by_cases hmem : key ∈ fields.map (·.1)
  · rwa [if_pos hmem]
  · rw [if_neg hmem, List.nodup_append]
    refine ⟨h, List.pairwise_singleton _ key, fun k hk k' hk' heq => hmem ?_⟩
    rwa [← List.mem_singleton.mp hk', ← heq]

-- `d[key] = a`
def set (t : Table κ α) (key : κ) (a : α) : Table κ α :=
  ⟨setFields key a t.fields, nodup_setFields t.nodup⟩

variable (t : Table κ α) (key : κ) (a : α)

theorem find_setFields (fields : List (κ × α)) (other : κ) :
    ((setFields key a fields).find? fun field => field.1 = other) =
      if other = key then some (key, a) else fields.find? fun field => field.1 = other := by
  induction fields with
  | nil =>
      by_cases h : other = key
      · simp [setFields, h]
      · simp [setFields, h, Ne.symm h]
  | cons field fields ih =>
      rw [setFields]
      by_cases hkey : field.1 = key
      · by_cases h : other = key
        · simp [hkey, h]
        · simp [hkey, h, Ne.symm h]
      · rw [if_neg hkey]
        by_cases hfield : field.1 = other
        · have h : other ≠ key := fun heq => hkey (hfield.trans heq)
          simp [hfield, h]
        · rw [List.find?_cons_of_neg (by simpa using hfield), ih,
            List.find?_cons_of_neg (by simpa using hfield)]

theorem get_set (other : κ) :
    (t.set key a).get other = if other = key then some a else t.get other := by
  rw [get, set, find_setFields]
  by_cases h : other = key
  · simp [h]
  · simp [h, get]

theorem mem_keys_set {other : κ} : other ∈ (t.set key a).keys ↔ other = key ∨ other ∈ t.keys := by
  rw [mem_keys_iff, mem_keys_iff, get_set]
  by_cases h : other = key
  · simp [h]
  · simp [h]

-- The dict that takes the pairs one after another.
def setAll (t : Table κ α) (pairs : List (κ × α)) : Table κ α :=
  pairs.foldl (fun t pair => t.set pair.1 pair.2) t

@[simp] theorem setAll_nil : t.setAll [] = t := rfl

@[simp] theorem setAll_cons (pair : κ × α) (pairs : List (κ × α)) :
    t.setAll (pair :: pairs) = (t.set pair.1 pair.2).setAll pairs := rfl

theorem mem_keys_setAll {t : Table κ α} {pairs : List (κ × α)} {other : κ} :
    other ∈ (t.setAll pairs).keys ↔ other ∈ t.keys ∨ other ∈ pairs.map (·.1) := by
  induction pairs generalizing t with
  | nil => simp
  | cons pair pairs ih =>
      rw [setAll_cons, ih, mem_keys_set, List.map_cons, List.mem_cons]
      tauto

-- Every field is one that was there or one of the pairs.
theorem get_setAll {t : Table κ α} {pairs : List (κ × α)} {other : κ} {b : α}
    (h : (t.setAll pairs).get other = some b) : t.get other = some b ∨ (other, b) ∈ pairs := by
  induction pairs generalizing t with
  | nil => exact .inl h
  | cons pair pairs ih =>
      rcases ih h with hset | hmem
      · rw [get_set] at hset
        by_cases hother : other = pair.1
        · rw [if_pos hother, Option.some.injEq] at hset
          exact .inr (by simp [hother, ← hset])
        · rw [if_neg hother] at hset
          exact .inl hset
      · exact .inr (List.mem_cons_of_mem _ hmem)

-- `d.update(other)`
def update (t other : Table κ α) : Table κ α := t.setAll other.fields

theorem get_setAll_of_notMem {t : Table κ α} {pairs : List (κ × α)} {other : κ}
    (h : other ∉ pairs.map (·.1)) : (t.setAll pairs).get other = t.get other := by
  induction pairs generalizing t with
  | nil => rfl
  | cons pair pairs ih =>
      rw [List.map_cons, List.mem_cons, not_or] at h
      rw [setAll_cons, ih h.2, get_set, if_neg h.1]

theorem get_setAll_of_mem {t : Table κ α} {pairs : List (κ × α)} {pair : κ × α}
    (hnodup : (pairs.map (·.1)).Nodup) (hpair : pair ∈ pairs) :
    (t.setAll pairs).get pair.1 = some pair.2 := by
  induction pairs generalizing t with
  | nil => cases hpair
  | cons first pairs ih =>
      rw [List.map_cons, List.nodup_cons] at hnodup
      rw [setAll_cons]
      rcases List.mem_cons.mp hpair with rfl | hpair
      · rw [get_setAll_of_notMem hnodup.1, get_set, if_pos rfl]
      · exact ih hnodup.2 hpair

-- The other dict goes first.
theorem get_update (t other : Table κ α) (key : κ) :
    (t.update other).get key = (other.get key).or (t.get key) := by
  rw [update]
  cases h : other.get key with
  | none => exact get_setAll_of_notMem (get_eq_none_iff.mp h)
  | some a => exact get_setAll_of_mem other.nodup (get_eq_some_iff.mp h)

-- `d.pop(key, None)`
def erase (t : Table κ α) (key : κ) : Table κ α :=
  ⟨t.fields.filter fun field => field.1 ≠ key, (t.nodup.sublist (List.filter_sublist.map _))⟩

end Set

section Map

variable {β : Type}

-- `{key: f(a) for key, a in d.items()}`
def map (f : α → β) (t : Table κ α) : Table κ β :=
  ⟨t.fields.map fun field => (field.1, f field.2), by
    rw [List.map_map]
    exact t.nodup⟩

theorem get_map (f : α → β) (t : Table κ α) (key : κ) : (t.map f).get key = (t.get key).map f := by
  rw [get, map, List.find?_map, Option.map_map, get, Option.map_map]
  rfl

end Map

end Table

end Basis
