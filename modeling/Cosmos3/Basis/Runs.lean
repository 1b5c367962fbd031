import Mathlib.Data.List.Chain
import Mathlib.Data.Option.Basic

namespace Basis

section Runs

variable {σ α : Type*}

-- Runs of a partial step function: an action that is not enabled has no
-- successor, so a run is a list of actions that are enabled one after another.
def run (step : σ → α → Option σ) : σ → List α → Option σ
  | s, [] => some s
  | s, a :: as => (step s a).bind fun s' => run step s' as

-- The states reached by runs all of whose steps meet `ok`.
inductive Path (step : σ → α → Option σ) (ok : σ → α → Prop) (s₀ : σ) : σ → Prop
  | start : Path step ok s₀ s₀
  | next {s s' : σ} {a : α} :
      Path step ok s₀ s → ok s a → step s a = some s' → Path step ok s₀ s'

abbrev Reachable (step : σ → α → Option σ) (s₀ s : σ) : Prop :=
  Path step (fun _ _ => True) s₀ s

-- What holds at the start and survives every admitted step holds throughout.
theorem Path.invariant {step : σ → α → Option σ} {ok : σ → α → Prop} {s₀ s : σ}
    (inv : σ → Prop) (hstart : inv s₀)
    (hstep : ∀ s a s', inv s → ok s a → step s a = some s' → inv s')
    (hpath : Path step ok s₀ s) : inv s := by
  induction hpath with
  | start => exact hstart
  | next _ hok hs ih => exact hstep _ _ _ ih hok hs

theorem Path.trans {step : σ → α → Option σ} {ok : σ → α → Prop} {s₀ s₁ s₂ : σ}
    (h₁ : Path step ok s₀ s₁) (h₂ : Path step ok s₁ s₂) : Path step ok s₀ s₂ := by
  induction h₂ with
  | start => exact h₁
  | next _ hok hs ih => exact .next ih hok hs

theorem Path.mono {step : σ → α → Option σ} {ok ok' : σ → α → Prop} {s₀ s : σ}
    (hmono : ∀ s a, ok s a → ok' s a) (hpath : Path step ok s₀ s) : Path step ok' s₀ s := by
  induction hpath with
  | start => exact .start
  | next _ hok hs ih => exact .next ih (hmono _ _ hok) hs

-- The admitted runs as a function, for concrete schedules.
def runWithin (step : σ → α → Option σ) (ok : σ → α → Prop) [∀ s a, Decidable (ok s a)] :
    σ → List α → Option σ
  | s, [] => some s
  | s, a :: as =>
    if ok s a then (step s a).bind fun s' => runWithin step ok s' as else none

theorem runWithin_cons_eq_some {step : σ → α → Option σ} {ok : σ → α → Prop}
    [∀ s a, Decidable (ok s a)] {s s' m : σ} {a : α} {as : List α} (hm : step s a = some m) :
    runWithin step ok s (a :: as) = some s' ↔ ok s a ∧ runWithin step ok m as = some s' := by
  simp only [runWithin, hm, Option.bind_some]
  split <;> simp_all

theorem Path.of_runWithin {step : σ → α → Option σ} {ok : σ → α → Prop}
    [∀ s a, Decidable (ok s a)] {s s' : σ} {as : List α}
    (h : runWithin step ok s as = some s') : Path step ok s s' := by
  induction as generalizing s with
  | nil => cases h; exact .start
  | cons a as ih =>
      simp only [runWithin] at h
      split at h
      · rename_i hok
        obtain ⟨m, hm, hrest⟩ := Option.bind_eq_some_iff.mp h
        exact (Path.next .start hok hm).trans (ih hrest)
      · cases h

-- A run of the system beside what a specification makes of the same actions.
theorem run_foldl {β : Type*} {step : σ → α → Option σ} {follow : β → α → β} {rel : σ → β → Prop}
    {s s' : σ} {t : β} {actions : List α} (h : run step s actions = some s') (hstart : rel s t)
    (hstep : ∀ s a s' t, rel s t → step s a = some s' → rel s' (follow t a)) :
    rel s' (actions.foldl follow t) := by
  induction actions generalizing s t with
  | nil =>
      cases h
      exact hstart
  | cons a as ih =>
      obtain ⟨m, hm, hrest⟩ := Option.bind_eq_some_iff.mp h
      exact ih hrest (hstep s a m t hstart hm)

theorem Reachable.of_run {step : σ → α → Option σ} {s s' : σ} {as : List α}
    (h : run step s as = some s') : Reachable step s s' := by
  induction as generalizing s with
  | nil => cases h; exact .start
  | cons a as ih =>
      obtain ⟨m, hm, hrest⟩ := Option.bind_eq_some_iff.mp h
      exact (Path.next .start trivial hm).trans (ih hrest)

-- The states a run goes through, the first one included.
def visited (step : σ → α → Option σ) : σ → List α → List σ
  | s, [] => [s]
  | s, a :: as =>
    s :: match step s a with
      | some s' => visited step s' as
      | none => []

theorem visited_eq_cons (step : σ → α → Option σ) (s : σ) (as : List α) :
    ∃ rest, visited step s as = s :: rest := by
  cases as with
  | nil => exact ⟨[], rfl⟩
  | cons a as => exact ⟨_, rfl⟩

-- What every admitted step keeps and does, along a whole run.
theorem visited_invariant {step : σ → α → Option σ} {ok : σ → α → Prop}
    [∀ s a, Decidable (ok s a)] {s s' : σ} {as : List α} (inv : σ → Prop) (rel : σ → σ → Prop)
    (hstart : inv s)
    (hstep : ∀ s a s', inv s → ok s a → step s a = some s' → inv s' ∧ rel s s')
    (h : runWithin step ok s as = some s') :
    (∀ m ∈ visited step s as, inv m) ∧ (visited step s as).IsChain rel := by
  induction as generalizing s with
  | nil => exact ⟨by simpa [visited] using hstart, List.isChain_singleton s⟩
  | cons a as ih =>
      simp only [runWithin] at h
      split at h
      · rename_i hok
        obtain ⟨m, hm, hrest⟩ := Option.bind_eq_some_iff.mp h
        obtain ⟨hinv, hrel⟩ := hstep s a m hstart hok hm
        obtain ⟨hall, hchain⟩ := ih hinv hrest
        obtain ⟨rest, hvisited⟩ := visited_eq_cons step m as
        have hcons : visited step s (a :: as) = s :: visited step m as := by
          rw [visited, hm]
        rw [hcons]
        refine ⟨List.forall_mem_cons.mpr ⟨hstart, hall⟩, ?_⟩
        rw [hvisited] at hchain ⊢
        exact List.isChain_cons_cons.mpr ⟨hrel, hchain⟩
      · cases h

end Runs

end Basis
