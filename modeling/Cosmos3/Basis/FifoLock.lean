import Mathlib.Data.List.Basic

namespace Basis

-- A fair mutex. Between a release and the moment the first waiter runs again
-- the mutex is free, but a newcomer queues behind the waiters all the same.
structure FifoLock (τ : Type*) where
  owner : Option τ
  waiters : List τ

namespace FifoLock

variable {τ : Type*}

def unlocked : FifoLock τ := ⟨none, []⟩

def locked (lock : FifoLock τ) : Bool := lock.owner.isSome

-- The newcomer takes the mutex at once, or joins the end of the queue.
def acquire (lock : FifoLock τ) (task : τ) : FifoLock τ :=
  match lock.owner, lock.waiters with
  | none, [] => ⟨some task, []⟩
  | owner, waiters => ⟨owner, waiters ++ [task]⟩

def release (lock : FifoLock τ) : FifoLock τ := { lock with owner := none }

-- The waiter that may run next, when the mutex is free.
def woken (lock : FifoLock τ) : Option τ :=
  match lock.owner with
  | none => lock.waiters.head?
  | some _ => none

def handOver (lock : FifoLock τ) : FifoLock τ :=
  ⟨lock.waiters.head?, lock.waiters.tail⟩

def abandon [DecidableEq τ] (lock : FifoLock τ) (task : τ) : FifoLock τ :=
  { lock with waiters := lock.waiters.erase task }

@[simp] theorem release_owner (lock : FifoLock τ) : lock.release.owner = none := rfl

@[simp] theorem release_waiters (lock : FifoLock τ) : lock.release.waiters = lock.waiters := rfl

@[simp] theorem abandon_owner [DecidableEq τ] (lock : FifoLock τ) (task : τ) :
    (lock.abandon task).owner = lock.owner := rfl

@[simp] theorem abandon_waiters [DecidableEq τ] (lock : FifoLock τ) (task : τ) :
    (lock.abandon task).waiters = lock.waiters.erase task := rfl

theorem acquire_cases (lock : FifoLock τ) (task : τ) :
    (lock.owner = none ∧ lock.waiters = [] ∧ lock.acquire task = ⟨some task, []⟩) ∨
    ((lock.owner ≠ none ∨ lock.waiters ≠ []) ∧
      lock.acquire task = ⟨lock.owner, lock.waiters ++ [task]⟩) := by
  rcases lock with ⟨owner, waiters⟩
  cases owner <;> cases waiters <;> simp [acquire]

theorem woken_eq_some {lock : FifoLock τ} {task : τ} (h : lock.woken = some task) :
    lock.owner = none ∧ ∃ rest, lock.waiters = task :: rest ∧
      lock.handOver = ⟨some task, rest⟩ := by
  rcases lock with ⟨owner, waiters⟩
  cases owner <;> cases waiters <;> simp_all [woken, handOver]

end FifoLock

end Basis
