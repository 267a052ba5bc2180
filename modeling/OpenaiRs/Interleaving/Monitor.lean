import OpenaiRs.Interleaving.System

/-!
# A mutex and a broadcast

A state behind a mutex, and a notification that wakes every registered task. Tasks are named by
their positions. A task that is registered and not among the waiters any more has been notified.
-/

namespace OpenaiRs.Interleaving

structure Monitor (α : Type) where
  state : α
  /-- The task that holds the mutex. -/
  holder : Option Nat
  /-- The tasks that are registered and not notified yet. -/
  waiters : List Nat

namespace Monitor

variable {α : Type} {m m' : Monitor α} {i j : Nat} {a : α}

def init (a : α) : Monitor α := ⟨a, none, []⟩

def acquire (m : Monitor α) (i : Nat) : Option (Monitor α) :=
  if m.holder = none then some { m with holder := some i } else none

def store (m : Monitor α) (a : α) : Monitor α := { m with state := a }

def release (m : Monitor α) : Monitor α := { m with holder := none }

def register (m : Monitor α) (i : Nat) : Monitor α := { m with waiters := i :: m.waiters }

/-- The task does not wait any more. -/
def forget (m : Monitor α) (i : Nat) : Monitor α := { m with waiters := m.waiters.filter (· ≠ i) }

def notifyWaiters (m : Monitor α) : Monitor α := { m with waiters := [] }

theorem acquire_eq_some (h : m.acquire i = some m') :
    m.holder = none ∧ m' = { m with holder := some i } := by
  rw [acquire] at h
  split at h
  · rename_i hfree
    exact ⟨hfree, (Option.some.inj h).symm⟩
  · cases h

@[simp] theorem mem_waiters_forget : j ∈ (m.forget i).waiters ↔ j ∈ m.waiters ∧ j ≠ i := by
  simp [forget]

end Monitor

end OpenaiRs.Interleaving
