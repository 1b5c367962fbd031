import Mathlib.Data.List.Basic

namespace Basis

-- How far a computation has come. One that loops may need more steps than are looked at.
inductive Outcome (ε α : Type) where
  | running
  | raised (e : ε)
  | returned (a : α)

-- What a computation does to the world, in order, and how it ends.
structure Traced (κ ε α : Type) where
  events : List κ
  outcome : Outcome ε α

namespace Traced

variable {κ ε α β : Type}

def ret (a : α) : Traced κ ε α := ⟨[], .returned a⟩

def raise (e : ε) : Traced κ ε α := ⟨[], .raised e⟩

def running : Traced κ ε α := ⟨[], .running⟩

def ofExcept : Except ε α → Traced κ ε α
  | .ok a => ret a
  | .error e => raise e

def cons (k : κ) (x : Traced κ ε α) : Traced κ ε α := ⟨k :: x.events, x.outcome⟩

-- One call and its reply.
def call (k : κ) (reply : Except ε α) : Traced κ ε α := cons k (ofExcept reply)

def seq (x : Traced κ ε α) (f : α → Traced κ ε β) : Traced κ ε β :=
  match x.outcome with
  | .returned a => ⟨x.events ++ (f a).events, (f a).outcome⟩
  | .raised e => ⟨x.events, .raised e⟩
  | .running => ⟨x.events, .running⟩

instance : Monad (Traced κ ε) where
  pure := ret
  bind := seq

-- `with contextlib.suppress(Exception)`
def suppress (x : Traced κ ε Unit) : Traced κ ε Unit :=
  match x.outcome with
  | .raised _ => ⟨x.events, .returned ()⟩
  | _ => x

section Rules

variable {x : Traced κ ε α} {f : α → Traced κ ε β}

@[simp] theorem events_ret (a : α) : (ret a : Traced κ ε α).events = [] := rfl

@[simp] theorem outcome_ret (a : α) : (ret a : Traced κ ε α).outcome = .returned a := rfl

@[simp] theorem events_raise (e : ε) : (raise e : Traced κ ε α).events = [] := rfl

@[simp] theorem outcome_raise (e : ε) : (raise e : Traced κ ε α).outcome = .raised e := rfl

@[simp] theorem events_ofExcept (r : Except ε α) : (ofExcept r : Traced κ ε α).events = [] := by
  cases r <;> rfl

@[simp] theorem events_call (k : κ) (r : Except ε α) : (call k r).events = [k] := by
  cases r <;> rfl

theorem bind_eq_seq : x >>= f = x.seq f := rfl

theorem seq_of_returned {a : α} (h : x.outcome = .returned a) :
    x.seq f = ⟨x.events ++ (f a).events, (f a).outcome⟩ := by
  rw [seq, h]

@[simp] theorem ret_seq (a : α) : (ret a : Traced κ ε α).seq f = f a := rfl

@[simp] theorem raise_seq (e : ε) : (raise e : Traced κ ε α).seq f = raise e := rfl

@[simp] theorem events_cons (k : κ) (x : Traced κ ε α) : (cons k x).events = k :: x.events := rfl

@[simp] theorem outcome_cons (k : κ) (x : Traced κ ε α) : (cons k x).outcome = x.outcome := rfl

@[simp] theorem running_seq : (running : Traced κ ε α).seq f = running := rfl

@[simp] theorem cons_seq (k : κ) : (cons k x).seq f = cons k (x.seq f) := by
  rcases x with ⟨events, outcome⟩
  cases outcome <;> rfl

@[simp] theorem call_ok_seq (k : κ) (a : α) :
    (call k (.ok a) : Traced κ ε α).seq f = cons k (f a) := rfl

@[simp] theorem call_error_seq (k : κ) (e : ε) :
    (call k (.error e) : Traced κ ε α).seq f = cons k (raise e) := rfl

@[simp] theorem ofExcept_ok_seq (a : α) : (ofExcept (.ok a) : Traced κ ε α).seq f = f a := rfl

@[simp] theorem ofExcept_error_seq (e : ε) :
    (ofExcept (.error e) : Traced κ ε α).seq f = raise e := rfl

@[simp] theorem suppress_call_seq (k : κ) (r : Except ε Unit) (f : Unit → Traced κ ε β) :
    (suppress (call k r)).seq f = cons k (f ()) := by
  cases r <;> rfl

@[simp] theorem events_suppress (x : Traced κ ε Unit) : (suppress x).events = x.events := by
  rcases x with ⟨events, outcome⟩
  cases outcome <;> rfl

theorem outcome_ofExcept_returned {r : Except ε α} {a : α} :
    (ofExcept r : Traced κ ε α).outcome = .returned a ↔ r = .ok a := by
  cases r <;> simp [ofExcept]

theorem outcome_call_returned {k : κ} {r : Except ε α} {a : α} :
    (call k r).outcome = .returned a ↔ r = .ok a := outcome_ofExcept_returned

theorem outcome_seq_returned {b : β} :
    (x.seq f).outcome = .returned b ↔ ∃ a, x.outcome = .returned a ∧ (f a).outcome = .returned b := by
  rw [seq]
  cases x.outcome <;> simp

theorem outcome_seq_raised {e : ε} :
    (x.seq f).outcome = .raised e ↔
      x.outcome = .raised e ∨ ∃ a, x.outcome = .returned a ∧ (f a).outcome = .raised e := by
  rw [seq]
  cases x.outcome <;> simp

theorem mem_events_seq {k : κ} :
    k ∈ (x.seq f).events ↔ k ∈ x.events ∨ ∃ a, x.outcome = .returned a ∧ k ∈ (f a).events := by
  rw [seq]
  cases x.outcome <;> simp

theorem seq_assoc {γ : Type} (g : β → Traced κ ε γ) :
    (x.seq f).seq g = x.seq fun a => (f a).seq g := by
  rcases x with ⟨events, outcome⟩
  cases outcome with
  | running => rfl
  | raised e => rfl
  | returned a =>
      simp only [seq]
      cases (f a).outcome <;> simp [List.append_assoc]

theorem events_seq_of_returned {a : α} (h : x.outcome = .returned a) :
    (x.seq f).events = x.events ++ (f a).events := by rw [seq_of_returned h]

end Rules

section All

variable {x : Traced κ ε α} {f : α → Traced κ ε β} {P : κ → Prop}

-- What holds of all that is done.
def All (P : κ → Prop) (x : Traced κ ε α) : Prop := ∀ k ∈ x.events, P k

theorem All.seq (hx : All P x) (hf : ∀ a, x.outcome = .returned a → All P (f a)) : All P (x.seq f) := by
  intro k hk
  rcases mem_events_seq.mp hk with hk | ⟨a, ha, hk⟩
  · exact hx k hk
  · exact hf a ha k hk

theorem all_ret (a : α) : All P (ret a : Traced κ ε α) := by simp [All]

theorem all_raise (e : ε) : All P (raise e : Traced κ ε α) := by simp [All]

theorem all_ofExcept (r : Except ε α) : All P (ofExcept r : Traced κ ε α) := by simp [All]

theorem all_call {k : κ} (hk : P k) (r : Except ε α) : All P (call k r) := by simpa [All] using hk

theorem all_suppress {x : Traced κ ε Unit} (hx : All P x) : All P (suppress x) := by
  rwa [All, events_suppress]

end All

section Guarded

variable {x : Traced κ ε α} {f : α → Traced κ ε β} {bad : κ → Prop} {P : List κ → Prop}

-- Before an event that needs it, the trace so far has what is asked of it.
def Guarded (bad : κ → Prop) (P : List κ → Prop) (x : Traced κ ε α) : Prop :=
  ∀ front k back, x.events = front ++ k :: back → bad k → P front

theorem Guarded.of_forall (h : ∀ front, P front) : Guarded bad P x := fun front _ _ _ _ => h front

theorem Guarded.of_none (h : ∀ k ∈ x.events, ¬bad k) : Guarded bad P x := fun front k _ heq hbad =>
  absurd hbad (h k (heq ▸ List.mem_append_right front List.mem_cons_self))

theorem Guarded.seq (hx : Guarded bad P x)
    (hf : ∀ a, x.outcome = .returned a → Guarded bad (fun front => P (x.events ++ front)) (f a)) :
    Guarded bad P (x.seq f) := by
  rcases x with ⟨events, outcome⟩
  cases outcome with
  | running => exact hx
  | raised e => exact hx
  | returned a =>
      intro front k back heq hbad
      rcases List.append_eq_append_iff.mp heq with ⟨rest, rfl, hrest⟩ | ⟨rest, hevents, hback⟩
      · exact hf a rfl rest k back hrest hbad
      · cases rest with
        | nil =>
            obtain rfl : events = front := by simpa using hevents
            have hfirst := hf a rfl [] k back hback.symm hbad
            simpa using hfirst
        | cons head rest =>
            obtain ⟨rfl, -⟩ := List.cons.inj hback
            exact hx front _ rest hevents hbad

end Guarded

end Traced

end Basis
