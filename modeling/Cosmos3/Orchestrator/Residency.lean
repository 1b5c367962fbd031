import Mathlib.Data.Option.Basic

namespace Cosmos3.Orchestrator

-- The two heavy GPU residents the single slot swaps between.
inductive Plane where
  | generation
  | reasoning
deriving DecidableEq, Repr

structure ResidencyId where
  plane : Plane
  label : Option String := none
deriving DecidableEq, Repr

structure ResidencyPlan where
  evict : Option ResidencyId
  load : Option ResidencyId
deriving DecidableEq, Repr

def planAcquire (current : Option ResidencyId) (requested : ResidencyId) : ResidencyPlan :=
  if current = some requested then ⟨none, none⟩
  else match current with
    | none => ⟨none, some requested⟩
    | some resident => ⟨some resident, some requested⟩

@[simp] theorem planAcquire_self (requested : ResidencyId) :
    planAcquire (some requested) requested = ⟨none, none⟩ := by
  simp [planAcquire]

@[simp] theorem planAcquire_cold (requested : ResidencyId) :
    planAcquire none requested = ⟨none, some requested⟩ := by
  simp [planAcquire]

theorem planAcquire_swap {resident requested : ResidencyId} (h : resident ≠ requested) :
    planAcquire (some resident) requested = ⟨some resident, some requested⟩ := by
  simp [planAcquire, h]

-- A plan never loads over a resident plane without evicting it first.
theorem planAcquire_evict (current : Option ResidencyId) (requested : ResidencyId)
    (h : (planAcquire current requested).load ≠ none) :
    (planAcquire current requested).evict = current := by
  unfold planAcquire at h ⊢
  split
  · simp_all
  · cases current <;> rfl

theorem planAcquire_load_none {current : Option ResidencyId} {requested : ResidencyId}
    (h : (planAcquire current requested).load = none) : current = some requested := by
  unfold planAcquire at h
  split at h
  · assumption
  · cases current <;> simp at h

end Cosmos3.Orchestrator
