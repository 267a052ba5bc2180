import OpenaiRs.Fallible.Pass
import Mathlib.Algebra.GroupWithZero.Nat

/-!
# What a pass makes and what it spends

A pass affords what it makes: the size of its result is covered by an allowance and by what it has spent of its
state. Allowances of passes that come one after the other add up.
-/

namespace OpenaiRs.Fallible.Pass

/-- What has been spent in a state, and the states that are within the limit. -/
structure Account (σ : Type) where
  spent : σ → Nat
  within : σ → Prop

variable {σ ε α β : Type} (account : Account σ)

/-- From a state within the limit a pass that returns stays within it, and its result is as large as the allowance
and what has been spent meanwhile. -/
def Affords (x : Pass σ ε α) (size : α → Nat) (allowance : Nat) : Prop :=
  ∀ s a s', account.within s → x s = some (.ok (a, s')) →
    account.within s' ∧ size a + account.spent s ≤ allowance + account.spent s'

variable {account} {x : Pass σ ε α} {f : α → Pass σ ε β} {a : α} {error : ε} {size : α → Nat} {size' : β → Nat}
  {allowance more : Nat}

theorem affords_done (h : size a ≤ allowance) : Affords account (done a : Pass σ ε α) size allowance := by
  intro s b s' hwithin hrun
  cases hrun
  exact ⟨hwithin, Nat.add_le_add_right h _⟩

theorem affords_fail : Affords account (fail error : Pass σ ε α) size allowance := by
  intro s a s' hwithin hrun
  cases hrun

theorem affords_diverge : Affords account (diverge : Pass σ ε α) size allowance := by
  intro s a s' hwithin hrun
  cases hrun

theorem Affords.mono (h : Affords account x size allowance) (hle : allowance ≤ more) :
    Affords account x size more := by
  intro s a s' hwithin hrun
  obtain ⟨hwithin', hsize⟩ := h s a s' hwithin hrun
  exact ⟨hwithin', by omega⟩

/-- The second pass may use what the first one has made, and `m`. -/
theorem Affords.bind {m : Nat} (h : Affords account x size allowance)
    (hf : ∀ a, x.Yields a → Affords account (f a) size' (size a + m)) :
    Affords account (x >>= f) size' (allowance + m) := by
  intro s b s' hwithin hrun
  change andThen x f s = _ at hrun
  rw [andThen] at hrun
  split at hrun
  · cases hrun
  · cases hrun
  · rename_i a next hx
    obtain ⟨hnext, hsize⟩ := h s a next hwithin hx
    obtain ⟨hend, hsize'⟩ := hf a ⟨s, next, hx⟩ next b s' hnext hrun
    exact ⟨hend, by omega⟩

/-- What is made of the result may be larger by `m`. -/
theorem Affords.grow {m : Nat} {t : β → Nat} {g : α → β} (h : Affords account x size allowance)
    (hg : ∀ a, t (g a) ≤ size a + m) : Affords account (x >>= fun a => done (g a)) t (allowance + m) :=
  h.bind fun a _ => affords_done (hg a)

/-- What is made of the result is no larger. -/
theorem Affords.map {g : α → β} (h : Affords account x size allowance) (hg : ∀ a, size' (g a) ≤ size a) :
    Affords account (x >>= fun a => done (g a)) size' allowance := by
  have hgrow : Affords account (x >>= fun a => done (g a)) size' (allowance + 0) := h.grow hg
  exact hgrow

/-- The rounds of a loop afford what they make one by one. -/
theorem Affords.traverse {cost : α → Nat} {as : List α} (h : ∀ a ∈ as, Affords account (f a) size' (cost a)) :
    Affords account (Pass.traverse f as) (fun bs => (bs.map size').sum) (as.map cost).sum := by
  induction as with
  | nil => exact affords_done (Nat.le_refl _)
  | cons a rest ih =>
      obtain ⟨hfirst, hrest⟩ := List.forall_mem_cons.mp h
      rw [List.map_cons, List.sum_cons]
      refine hfirst.bind fun b _ => ?_
      rw [Nat.add_comm (size' b)]
      refine (ih hrest).grow fun bs => ?_
      rw [List.map_cons, List.sum_cons]
      omega

theorem traverse_map {γ : Type} (g : γ → α) (as : List γ) :
    Pass.traverse f (as.map g) = Pass.traverse (fun a => f (g a)) as := by
  induction as with
  | nil => rfl
  | cons a rest ih => rw [List.map_cons, Pass.traverse, Pass.traverse, ih]

end OpenaiRs.Fallible.Pass
