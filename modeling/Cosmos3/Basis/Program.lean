import Mathlib.Logic.Relation

namespace Basis

-- Programs over a state that outlives them. A step of one may be cut short, and an
-- exception or a crash may come at any point; `partway` says what a cut step leaves.
inductive Program (σ ε : Type) : Type → Type 1 where
  | read {α : Type} (f : σ → Except ε α) : Program σ ε α
  | act (step : σ → Except ε σ) (partway : σ → σ → Prop) : Program σ ε Unit
  | seq {α β : Type} (p : Program σ ε α) (f : α → Program σ ε β) : Program σ ε β
  | onError {α : Type} (p : Program σ ε α) (cleanup : Program σ ε Unit) : Program σ ε α

-- How a program stops before its end. Only the exception is cleaned up after.
inductive Stop where
  | raised
  | crashed

namespace Program

variable {σ ε α β : Type}

def ret (a : α) : Program σ ε α := .read fun _ => .ok a

def raise (e : ε) : Program σ ε α := .read fun _ => .error e

instance : Monad (Program σ ε) where
  pure := ret
  bind := seq

def forEach {ι : Type} (f : ι → Program σ ε Unit) : List ι → Program σ ε Unit
  | [] => ret ()
  | item :: rest => (f item).seq fun _ => forEach f rest

section Meaning

-- The run that nothing disturbs.
def exec : {α : Type} → Program σ ε α → σ → Except ε α × σ
  | _, .read f, s => (f s, s)
  | _, .act step _, s =>
      match step s with
      | .ok s' => (.ok (), s')
      | .error e => (.error e, s)
  | _, .seq p f, s =>
      match exec p s with
      | (.ok a, s') => exec (f a) s'
      | (.error e, s') => (.error e, s')
  | _, .onError p cleanup, s =>
      match exec p s with
      | (.ok a, s') => (.ok a, s')
      | (.error e, s') =>
        match exec cleanup s' with
        | (.ok _, s'') => (.error e, s'')
        | (.error e', s'') => (.error e', s'')

-- All the runs: what each may return or how it may stop, and the state it leaves.
def ends : {α : Type} → Program σ ε α → σ → Except Stop α → σ → Prop
  | _, .read f, s, .ok a, s' => f s = .ok a ∧ s' = s
  | _, .read _, s, .error _, s' => s' = s
  | _, .act step _, s, .ok _, s' => step s = .ok s'
  | _, .act step partway, s, .error _, s' => s' = s ∨ partway s s' ∨ step s = .ok s'
  | _, .seq p f, s, o, s' =>
      (∃ a m, ends p s (.ok a) m ∧ ends (f a) m o s') ∨
        ∃ stop, o = .error stop ∧ ends p s (.error stop) s'
  | _, .onError p _, s, .ok a, s' => ends p s (.ok a) s'
  | _, .onError p cleanup, s, .error .raised, s' =>
      ∃ m, ends p s (.error .raised) m ∧ ∃ o, o ≠ .error .crashed ∧ ends cleanup m o s'
  | _, .onError p cleanup, s, .error .crashed, s' =>
      ends p s (.error .crashed) s' ∨
        ∃ m, ends p s (.error .raised) m ∧ ends cleanup m (.error .crashed) s'

@[simp] theorem exec_ret (a : α) (s : σ) : (ret a : Program σ ε α).exec s = (.ok a, s) := rfl

@[simp] theorem exec_raise (e : ε) (s : σ) : (raise e : Program σ ε α).exec s = (.error e, s) := rfl

theorem exec_read (f : σ → Except ε α) (s : σ) : (read f).exec s = (f s, s) := rfl

theorem exec_seq_ok {p : Program σ ε α} {f : α → Program σ ε β} {s s' : σ} {b : β} :
    (p.seq f).exec s = (.ok b, s') ↔
      ∃ a m, p.exec s = (.ok a, m) ∧ (f a).exec m = (.ok b, s') := by
  rw [exec]
  constructor
  · intro h
    split at h
    · rename_i a m hp
      exact ⟨a, m, hp, h⟩
    · cases h
  · rintro ⟨a, m, hp, hf⟩
    rw [hp]
    exact hf

-- What stops first stops the whole.
theorem exec_seq_error {p : Program σ ε α} {s s' : σ} {e : ε} (h : p.exec s = (.error e, s'))
    (f : α → Program σ ε β) : (p.seq f).exec s = (.error e, s') := by
  rw [exec, h]

theorem exec_read_ok {f : σ → Except ε α} {s s' : σ} {a : α} :
    (read f).exec s = (.ok a, s') ↔ f s = .ok a ∧ s' = s := by
  rw [exec_read, Prod.mk.injEq, eq_comm (a := s)]

theorem exec_read_seq_ok {f : σ → Except ε α} {g : α → Program σ ε β} {s s' : σ} {b : β} :
    ((read f).seq g).exec s = (.ok b, s') ↔ ∃ a, f s = .ok a ∧ (g a).exec s = (.ok b, s') := by
  rw [exec_seq_ok]
  constructor
  · rintro ⟨a, m, hread, hrest⟩
    obtain ⟨ha, rfl⟩ := exec_read_ok.mp hread
    exact ⟨a, ha, hrest⟩
  · rintro ⟨a, ha, hrest⟩
    exact ⟨a, s, exec_read_ok.mpr ⟨ha, rfl⟩, hrest⟩

theorem exec_act_ok {step : σ → Except ε σ} {partway : σ → σ → Prop} {s s' : σ} {u : Unit} :
    (act step partway).exec s = (.ok u, s') ↔ step s = .ok s' := by
  rw [exec]
  constructor
  · intro h
    split at h
    · rename_i hstep
      cases h
      exact hstep
    · cases h
  · intro h
    rw [h]

theorem exec_onError_ok {p : Program σ ε α} {cleanup : Program σ ε Unit} {s s' : σ} {a : α} :
    (p.onError cleanup).exec s = (.ok a, s') ↔ p.exec s = (.ok a, s') := by
  rw [exec]
  constructor
  · intro h
    split at h
    · rename_i hp
      cases h
      exact hp
    · split at h <;> cases h
  · intro h
    rw [h]

-- A run that returns was not disturbed.
theorem ends_ok_iff (p : Program σ ε α) {s s' : σ} {a : α} :
    p.ends s (.ok a) s' ↔ p.exec s = (.ok a, s') := by
  induction p generalizing s s' with
  | read f => rw [exec_read_ok, ends]
  | act step partway => rw [exec_act_ok, ends]
  | seq p f ihp ihf =>
      rw [exec_seq_ok, ends]
      constructor
      · rintro (⟨b, m, hp, hf⟩ | ⟨stop, hstop, -⟩)
        · exact ⟨b, m, ihp.mp hp, (ihf b).mp hf⟩
        · cases hstop
      · rintro ⟨b, m, hp, hf⟩
        exact .inl ⟨b, m, ihp.mpr hp, (ihf b).mpr hf⟩
  | onError p cleanup ihp _ => rw [exec_onError_ok, ends, ihp]

-- A crash may come before the first step, and between two parts.
theorem ends_crashed (p : Program σ ε α) (s : σ) : p.ends s (.error .crashed) s := by
  induction p generalizing s with
  | read f => rfl
  | act step partway => exact .inl rfl
  | seq p f ihp _ => exact .inr ⟨.crashed, rfl, ihp s⟩
  | onError p cleanup ihp _ => exact .inl (ihp s)

theorem ends_seq {p : Program σ ε α} {f : α → Program σ ε β} {s m s' : σ} {a : α} {o : Except Stop β}
    (hp : p.exec s = (.ok a, m)) (hf : (f a).ends m o s') : (p.seq f).ends s o s' :=
  .inl ⟨a, m, (ends_ok_iff p).mpr hp, hf⟩

end Meaning

section Rules

-- From `P` the program returns in `Q` and stops, wherever it does, in `E`.
structure Spec (P : σ → Prop) (p : Program σ ε α) (Q : α → σ → Prop) (E : σ → Prop) : Prop where
  returns : ∀ s a s', P s → p.ends s (.ok a) s' → Q a s'
  stops : ∀ s stop s', P s → p.ends s (.error stop) s' → E s'

variable {P P' : σ → Prop} {Q Q' : α → σ → Prop} {R : β → σ → Prop} {E E' : σ → Prop}

theorem Spec.mono {p : Program σ ε α} (h : Spec P p Q E) (hP : ∀ s, P' s → P s)
    (hQ : ∀ a s, Q a s → Q' a s) (hE : ∀ s, E s → E' s) : Spec P' p Q' E' :=
  ⟨fun s a s' hs he => hQ a s' (h.returns s a s' (hP s hs) he),
    fun s stop s' hs he => hE s' (h.stops s stop s' (hP s hs) he)⟩

theorem Spec.read {f : σ → Except ε α} (hQ : ∀ s a, P s → f s = .ok a → Q a s)
    (hE : ∀ s, P s → E s) : Spec P (.read f) Q E := by
  refine ⟨fun s a s' hs he => ?_, fun s stop s' hs he => ?_⟩
  · obtain ⟨hread, rfl⟩ := he
    exact hQ s' a hs hread
  · obtain rfl : s' = s := he
    exact hE s' hs

theorem Spec.ret {a : α} (hQ : ∀ s, P s → Q a s) (hE : ∀ s, P s → E s) :
    Spec (ε := ε) P (ret a) Q E :=
  .read (fun s b hs hb => by cases hb; exact hQ s hs) hE

theorem Spec.act {step : σ → Except ε σ} {partway : σ → σ → Prop} {Q : Unit → σ → Prop}
    (hstep : ∀ s s', P s → step s = .ok s' → Q () s' ∧ E s')
    (hpartway : ∀ s s', P s → partway s s' → E s') (hE : ∀ s, P s → E s) :
    Spec P (.act step partway) Q E := by
  refine ⟨fun s a s' hs he => (hstep s s' hs he).1, fun s stop s' hs he => ?_⟩
  rcases he with rfl | hpart | hdone
  · exact hE s' hs
  · exact hpartway s s' hs hpart
  · exact (hstep s s' hs hdone).2

theorem Spec.seq {p : Program σ ε α} {f : α → Program σ ε β} (hp : Spec P p Q E)
    (hf : ∀ a, Spec (Q a) (f a) R E) : Spec P (p.seq f) R E := by
  refine ⟨fun s b s' hs he => ?_, fun s stop s' hs he => ?_⟩
  · rcases he with ⟨a, m, hfirst, hrest⟩ | ⟨stop, hstop, -⟩
    · exact (hf a).returns m b s' (hp.returns s a m hs hfirst) hrest
    · cases hstop
  · rcases he with ⟨a, m, hfirst, hrest⟩ | ⟨stop', hstop, hfirst⟩
    · exact (hf a).stops m stop s' (hp.returns s a m hs hfirst) hrest
    · exact hp.stops s stop' s' hs hfirst

theorem Spec.onError {p : Program σ ε α} {cleanup : Program σ ε Unit} (hp : Spec P p Q E)
    (hcleanup : Spec E cleanup (fun _ => E) E) : Spec P (p.onError cleanup) Q E := by
  refine ⟨fun s a s' hs he => hp.returns s a s' hs he, fun s stop s' hs he => ?_⟩
  cases stop with
  | raised =>
      obtain ⟨m, hraised, o, -, hclean⟩ := he
      have hm := hp.stops s .raised m hs hraised
      cases o with
      | ok u => exact hcleanup.returns m u s' hm hclean
      | error stop => exact hcleanup.stops m stop s' hm hclean
  | crashed =>
      rcases he with hcrashed | ⟨m, hraised, hclean⟩
      · exact hp.stops s .crashed s' hs hcrashed
      · exact hcleanup.stops m .crashed s' (hp.stops s .raised m hs hraised) hclean

-- A fact that no state has a part in can be used for the program.
theorem Spec.assume {c : Prop} {p : Program σ ε α} (h : c → Spec P p Q E) : Spec (fun s => P s ∧ c) p Q E :=
  ⟨fun s a s' hs => (h hs.2).returns s a s' hs.1, fun s stop s' hs => (h hs.2).stops s stop s' hs.1⟩

theorem Spec.exists {ι : Type} {P : ι → σ → Prop} {p : Program σ ε α} (h : ∀ i, Spec (P i) p Q E) :
    Spec (fun s => ∃ i, P i s) p Q E := by
  refine ⟨fun s a s' hs he => ?_, fun s stop s' hs he => ?_⟩
  · obtain ⟨i, hs⟩ := hs
    exact (h i).returns s a s' hs he
  · obtain ⟨i, hs⟩ := hs
    exact (h i).stops s stop s' hs he

-- What a loop has come to after the items that it has dealt with.
theorem Spec.forEach {ι : Type} {f : ι → Program σ ε Unit} {P : List ι → σ → Prop} {items : List ι}
    (hstep : ∀ front item back, items = front ++ item :: back →
      Spec (P front) (f item) (fun _ => P (front ++ [item])) E) (hE : ∀ s, P items s → E s) :
    Spec (P []) (forEach f items) (fun _ => P items) E := by
  have hrest : ∀ front back, items = front ++ back → Spec (P front) (Program.forEach f back) (fun _ => P items) E := by
    intro front back hitems
    induction back generalizing front with
    | nil =>
        rw [List.append_nil] at hitems
        exact .ret (fun s hs => hitems ▸ hs) fun s hs => hE s (hitems ▸ hs)
    | cons item back ih =>
        exact (hstep front item back hitems).seq fun _ => ih (front ++ [item]) (by rw [hitems]; simp)
  exact hrest [] items rfl

-- What holds before a program, after it and wherever it stops.
abbrev Keeps (I : σ → Prop) (p : Program σ ε α) : Prop := Spec I p (fun _ => I) I

theorem Keeps.read (I : σ → Prop) (f : σ → Except ε α) : Keeps I (.read f) :=
  Spec.read (fun _ _ hs _ => hs) fun _ hs => hs

-- One program after another, each from what the one before it left.
def Runs {ι : Type} (p : ι → Program σ ε α) : σ → σ → Prop :=
  Relation.ReflTransGen fun s s' => ∃ i o, (p i).ends s o s'

theorem Runs.invariant {ι : Type} {p : ι → Program σ ε α} {I : σ → Prop} (h : ∀ i, Keeps I (p i))
    {s s' : σ} (hruns : Runs p s s') (hs : I s) : I s' := by
  induction hruns with
  | refl => exact hs
  | tail _ hend ih =>
      obtain ⟨i, o, hend⟩ := hend
      cases o with
      | ok a => exact (h i).returns _ a _ ih hend
      | error stop => exact (h i).stops _ stop _ ih hend

end Rules

end Program

end Basis
