import Mathlib.Data.List.Basic
import Mathlib.Data.List.Forall2

namespace Basis

section Bind

variable {ε α β : Type} {x : Except ε α} {f : α → Except ε β}

theorem bind_eq_ok {b : β} : (x >>= f) = .ok b ↔ ∃ a, x = .ok a ∧ f a = .ok b := by
  cases x <;> simp [Bind.bind, Except.bind]

theorem bind_eq_error {e : ε} :
    (x >>= f) = .error e ↔ x = .error e ∨ ∃ a, x = .ok a ∧ f a = .error e := by
  cases x <;> simp [Bind.bind, Except.bind]

theorem map_eq_ok {g : α → β} {b : β} : x.map g = .ok b ↔ ∃ a, x = .ok a ∧ g a = b := by
  cases x <;> simp [Except.map]

theorem mapError_eq_ok {ε' : Type} {g : ε → ε'} {a : α} : x.mapError g = .ok a ↔ x = .ok a := by
  cases x <;> simp [Except.mapError]

-- A loop that makes a list: it has a result for each element, in their order.
theorem mapM_eq_ok {f : α → Except ε β} {as : List α} {bs : List β} :
    as.mapM f = .ok bs ↔ List.Forall₂ (fun a b => f a = .ok b) as bs := by
  induction as generalizing bs with
  | nil => simp [pure, Except.pure, eq_comm]
  | cons a as ih =>
      rw [List.mapM_cons, bind_eq_ok, List.forall₂_cons_left_iff]
      constructor
      · rintro ⟨b, hb, hrest⟩
        obtain ⟨bs', hbs, hcons⟩ := bind_eq_ok.mp hrest
        cases hcons
        exact ⟨b, bs', hb, ih.mp hbs, rfl⟩
      · rintro ⟨b, bs', hb, hbs, rfl⟩
        exact ⟨b, hb, bind_eq_ok.mpr ⟨bs', ih.mpr hbs, rfl⟩⟩

theorem mapM_eq_map {f : α → Except ε β} {g : α → β} {as : List α} (h : ∀ a ∈ as, f a = .ok (g a)) :
    as.mapM f = .ok (as.map g) := by
  rw [mapM_eq_ok, List.forall₂_map_right_iff, List.forall₂_same]
  exact h

end Bind

theorem exists_of_mem_right {α β : Type} {p : α → β → Prop} {as : List α} {bs : List β}
    (h : List.Forall₂ p as bs) {b : β} (hb : b ∈ bs) : ∃ a ∈ as, p a b := by
  induction h with
  | nil => exact absurd hb List.not_mem_nil
  | @cons a b' as bs hp _ ih =>
      rcases List.mem_cons.mp hb with rfl | hb
      · exact ⟨a, List.mem_cons_self, hp⟩
      · obtain ⟨a', ha', hp'⟩ := ih hb
        exact ⟨a', List.mem_cons_of_mem _ ha', hp'⟩

theorem exists_forall₂ {α β : Type} {p : α → β → Prop} {as : List α} (h : ∀ a ∈ as, ∃ b, p a b) :
    ∃ bs, List.Forall₂ p as bs := by
  induction as with
  | nil => exact ⟨[], .nil⟩
  | cons a as ih =>
      obtain ⟨⟨b, hb⟩, hrest⟩ := List.forall_mem_cons.mp h
      obtain ⟨bs, hbs⟩ := ih hrest
      exact ⟨b :: bs, .cons hb hbs⟩

theorem mapM_eq_some {α β : Type} {f : α → Option β} {as : List α} {bs : List β} :
    as.mapM f = some bs ↔ List.Forall₂ (fun a b => f a = some b) as bs := by
  induction as generalizing bs with
  | nil => cases bs <;> simp
  | cons a as ih =>
      cases bs with
      | nil => simp [Option.bind_eq_some_iff]
      | cons b bs => simp [Option.bind_eq_some_iff, ih]

-- The first place of an element lies behind a front without it.
theorem append_eq_of_notMem {α : Type} {x : α} {first second front back : List α} (hx : x ∉ first)
    (h : first ++ second = front ++ x :: back) : ∃ rest, front = first ++ rest ∧ second = rest ++ x :: back := by
  rcases List.append_eq_append_iff.mp h with ⟨rest, hfront, hsecond⟩ | ⟨rest, hfirst, hback⟩
  · exact ⟨rest, hfront, hsecond⟩
  · cases rest with
    | nil => exact ⟨[], by simpa using hfirst.symm, by simpa using hback.symm⟩
    | cons head rest =>
        obtain ⟨rfl, -⟩ := List.cons.inj hback
        exact absurd (by simp [hfirst]) hx

-- Either all have it, or there is a first one that does not.
theorem forall_or_first {α : Type} (P : α → Prop) (l : List α) :
    (∀ a ∈ l, P a) ∨ ∃ front a back, l = front ++ a :: back ∧ (∀ b ∈ front, P b) ∧ ¬P a := by
  induction l with
  | nil => exact .inl (by simp)
  | cons a l ih =>
      by_cases ha : P a
      · rcases ih with hall | ⟨front, first, back, rfl, hfront, hfirst⟩
        · exact .inl (List.forall_mem_cons.mpr ⟨ha, hall⟩)
        · exact .inr ⟨a :: front, first, back, rfl, List.forall_mem_cons.mpr ⟨ha, hfront⟩, hfirst⟩
      · exact .inr ⟨[], a, l, rfl, by simp, ha⟩

section Checks

-- What a check does with what it reads.
inductive Verdict where
  | accepts
  | refuses
  | escapes
deriving DecidableEq, Repr

variable {ρ ε : Type} (run : ρ → Except ε Unit)

-- The checks in their order; the first error ends them.
def runChecks : List ρ → Except ε Unit
  | [] => .ok ()
  | r :: reads => run r >>= fun _ => runChecks reads

theorem runChecks_append (first second : List ρ) :
    runChecks run (first ++ second) = runChecks run first >>= fun _ => runChecks run second := by
  induction first with
  | nil => rfl
  | cons r first ih =>
      rw [List.cons_append, runChecks, runChecks, ih]
      cases run r <;> rfl

theorem runChecks_eq_ok {reads : List ρ} :
    runChecks run reads = .ok () ↔ ∀ r ∈ reads, run r = .ok () := by
  induction reads with
  | nil => simp [runChecks]
  | cons r reads ih =>
      rw [runChecks, bind_eq_ok, List.forall_mem_cons, ih]
      exact ⟨fun ⟨(), h⟩ => h, fun h => ⟨(), h⟩⟩

theorem runChecks_eq_error {reads : List ρ} {e : ε} :
    runChecks run reads = .error e ↔
      ∃ before r after, reads = before ++ r :: after ∧ (∀ b ∈ before, run b = .ok ()) ∧
        run r = .error e := by
  constructor
  · intro h
    induction reads with
    | nil => cases h
    | cons r reads ih =>
        rcases bind_eq_error.mp h with hr | ⟨⟨⟩, hr, hreads⟩
        · exact ⟨[], r, reads, rfl, by simp, hr⟩
        · obtain ⟨before, r', after, rfl, hbefore, hr'⟩ := ih hreads
          exact ⟨r :: before, r', after, rfl, by simpa using ⟨hr, hbefore⟩, hr'⟩
  · rintro ⟨before, r, after, rfl, hbefore, hr⟩
    rw [runChecks_append, bind_eq_error]
    exact .inr ⟨(), (runChecks_eq_ok run).mpr hbefore, bind_eq_error.mpr (.inl hr)⟩

-- How a check ends by its verdict: the errors are of two kinds.
def Verdict.Judges (typed : ε → Prop) (result : Except ε Unit) : Verdict → Prop
  | .accepts => result = .ok ()
  | .refuses => ∃ e, result = .error e ∧ typed e
  | .escapes => ∃ e, result = .error e ∧ ¬typed e

variable {run} {typed : ε → Prop} {verdict : ρ → Verdict}

theorem Verdict.Judges.ok_iff {result : Except ε Unit} {v : Verdict} (h : v.Judges typed result) :
    result = .ok () ↔ v = .accepts := by
  cases v with
  | accepts => exact iff_of_true h rfl
  | refuses =>
      obtain ⟨e, rfl, -⟩ := h
      simp
  | escapes =>
      obtain ⟨e, rfl, -⟩ := h
      simp

theorem Verdict.Judges.typed_iff {v : Verdict} {e : ε} (h : v.Judges typed (.error e)) :
    typed e ↔ v ≠ .escapes := by
  cases v with
  | accepts => cases h
  | refuses =>
      obtain ⟨e', he, htyped⟩ := h
      cases he
      simpa using htyped
  | escapes =>
      obtain ⟨e', he, htyped⟩ := h
      cases he
      simpa using htyped

-- Every error is a typed one just when no check that is reached lets another one
-- escape.
theorem all_typed_iff (h : ∀ r, (verdict r).Judges typed (run r)) (reads : List ρ) :
    (∀ e, runChecks run reads = .error e → typed e) ↔
      ∀ before r after, reads = before ++ r :: after → (∀ b ∈ before, verdict b = .accepts) →
        verdict r ≠ .escapes := by
  constructor
  · intro hall before r after hreads hbefore hr
    have hjudged := h r
    rw [hr] at hjudged
    obtain ⟨e, he, htyped⟩ := hjudged
    refine htyped (hall e ((runChecks_eq_error run).mpr ⟨before, r, after, hreads, ?_, he⟩))
    exact fun b hb => (h b).ok_iff.mpr (hbefore b hb)
  · intro hnone e he
    obtain ⟨before, r, after, hreads, hbefore, hr⟩ := (runChecks_eq_error run).mp he
    have hjudged := h r
    rw [hr] at hjudged
    exact hjudged.typed_iff.mpr
      (hnone before r after hreads fun b hb => (h b).ok_iff.mp (hbefore b hb))

end Checks

end Basis
