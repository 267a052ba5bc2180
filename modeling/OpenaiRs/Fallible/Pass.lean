import Mathlib.Tactic.Common

/-!
# Passes that can fail

A pass reads and writes a state, and fails, or never returns. What a pass yields is stated without its
states, so that facts about the results compose.
-/

namespace OpenaiRs.Fallible

/-- A computation on a state; `none` means that it does not return. -/
def Pass (σ ε α : Type) : Type := σ → Option (Except ε (α × σ))

namespace Pass

variable {σ ε α β γ : Type}

section Combinators

def done (a : α) : Pass σ ε α := fun s => some (.ok (a, s))

def andThen (x : Pass σ ε α) (f : α → Pass σ ε β) : Pass σ ε β := fun s =>
  match x s with
  | none => none
  | some (.error error) => some (.error error)
  | some (.ok (a, s')) => f a s'

instance instMonad : Monad (Pass σ ε) where
  pure := done
  bind := andThen

def fail (error : ε) : Pass σ ε α := fun _ => some (.error error)

/-- The pass never returns. -/
def diverge : Pass σ ε α := fun _ => none

/-- Changes the state, and tells something about it. -/
def modifyGet (f : σ → α × σ) : Pass σ ε α := fun s => some (.ok (f s))

/-- A loop that replaces the elements of a list. -/
def traverse (f : α → Pass σ ε β) : List α → Pass σ ε (List β)
  | [] => done []
  | a :: rest => do
      let b ← f a
      let rest ← traverse f rest
      done (b :: rest)

end Combinators

section Results

/-- From some state the pass returns the value. -/
def Yields (x : Pass σ ε α) (a : α) : Prop := ∃ s s', x s = some (.ok (a, s'))

variable {x : Pass σ ε α} {f : α → Pass σ ε β} {a b : α} {c : β} {error : ε}

theorem yields_done : (done b : Pass σ ε α).Yields a → a = b := by
  rintro ⟨s, s', h⟩
  cases h
  rfl

theorem not_yields_fail : ¬ (fail error : Pass σ ε α).Yields a := by
  rintro ⟨s, s', h⟩
  cases h

theorem not_yields_diverge : ¬ (diverge : Pass σ ε α).Yields a := by
  rintro ⟨s, s', h⟩
  cases h

/-- A sequence yields what its second part makes of what the first one yields. -/
theorem yields_bind (h : (x >>= f).Yields c) : ∃ a, x.Yields a ∧ (f a).Yields c := by
  obtain ⟨s, s', h⟩ := h
  change andThen x f s = _ at h
  rw [andThen] at h
  split at h
  · cases h
  · cases h
  · rename_i a next hx
    exact ⟨a, ⟨s, next, hx⟩, next, s', h⟩

theorem yields_traverse {as : List α} {cs : List β} (h : (traverse f as).Yields cs) :
    List.Forall₂ (fun a c => (f a).Yields c) as cs := by
  induction as generalizing cs with
  | nil =>
      rw [yields_done h]
      exact .nil
  | cons a rest ih =>
      obtain ⟨c, hc, hrest⟩ := yields_bind h
      obtain ⟨cs', hcs, heq⟩ := yields_bind hrest
      rw [yields_done heq]
      exact .cons hc (ih hcs)

/-- What comes behind a pass that only returns a value. -/
theorem done_bind (a : α) (f : α → Pass σ ε β) : (done a >>= f) = f a := rfl

/-- A loop whose rounds only return values. -/
theorem traverse_eq_done {g : α → β} {as : List α} (h : ∀ a ∈ as, f a = done (g a)) :
    traverse f as = done (as.map g) := by
  induction as with
  | nil => rfl
  | cons a rest ih =>
      obtain ⟨hfirst, hrest⟩ := List.forall_mem_cons.mp h
      rw [traverse, hfirst, done_bind, ih hrest, done_bind]
      rfl

/-- A loop whose rounds change nothing. -/
theorem traverse_self {f : α → Pass σ ε α} {as : List α} (h : ∀ a ∈ as, f a = done a) :
    traverse f as = done as := by
  have hmap := traverse_eq_done (g := id) h
  rwa [List.map_id] at hmap

end Results

section Termination

/-- The pass returns, whatever the state. -/
def Returns (x : Pass σ ε α) : Prop := ∀ s, x s ≠ none

/-- Where the first pass returns, the second one returns the same. -/
def Refines (x y : Pass σ ε α) : Prop := ∀ s r, x s = some r → y s = some r

variable {x y : Pass σ ε α} {f g : α → Pass σ ε β} {a : α} {error : ε}

theorem Refines.refl (x : Pass σ ε α) : Refines x x := fun _ _ h => h

theorem Refines.trans {z : Pass σ ε α} (h : Refines x y) (h' : Refines y z) : Refines x z :=
  fun s r hr => h' s r (h s r hr)

theorem Refines.eq_done (h : Refines x y) (hx : x = done a) : y = done a := by
  funext s
  apply h s
  rw [hx]
  rfl

theorem refines_diverge : Refines diverge x := by
  intro s r h
  cases h

theorem Refines.bind (h : Refines x y) (hf : ∀ a, x.Yields a → Refines (f a) (g a)) :
    Refines (x >>= f) (y >>= g) := by
  intro s r hr
  change andThen x f s = _ at hr
  change andThen y g s = _
  rw [andThen] at hr ⊢
  cases hx : x s with
  | none =>
      rw [hx] at hr
      cases hr
  | some result =>
      rw [hx] at hr
      rw [h s result hx]
      cases result with
      | error error => exact hr
      | ok pair => exact hf pair.1 ⟨s, pair.2, hx⟩ pair.2 r hr

theorem Refines.traverse {as : List α} (hf : ∀ a ∈ as, Refines (f a) (g a)) :
    Refines (Pass.traverse f as) (Pass.traverse g as) := by
  induction as with
  | nil => exact .refl _
  | cons a rest ih =>
      obtain ⟨hfirst, hrest⟩ := List.forall_mem_cons.mp hf
      exact hfirst.bind fun b _ => (ih hrest).bind fun rest _ => .refl _

/-- Passes that return the same where one of them returns are the same. -/
theorem Refines.antisymm (h : Refines x y) (h' : Refines y x) : x = y := by
  funext s
  cases hx : x s with
  | none =>
      cases hy : y s with
      | none => rfl
      | some r => exact absurd ((h' s r hy).symm.trans hx) (by simp)
  | some r => exact (h s r hx).symm

theorem Returns.refines (h : x.Returns) (hrefines : Refines x y) : y.Returns := by
  intro s hnone
  cases hx : x s with
  | none => exact h s hx
  | some r => exact absurd ((hrefines s r hx).symm.trans hnone) (by simp)

theorem returns_done : (done a : Pass σ ε α).Returns := by
  intro s h
  cases h

theorem returns_fail : (fail error : Pass σ ε α).Returns := by
  intro s h
  cases h

theorem returns_modifyGet {change : σ → α × σ} : (modifyGet change : Pass σ ε α).Returns := by
  intro s h
  cases h

theorem returns_bind (h : x.Returns) (hf : ∀ a, x.Yields a → (f a).Returns) : (x >>= f).Returns := by
  intro s hnone
  change andThen x f s = _ at hnone
  rw [andThen] at hnone
  split at hnone
  · rename_i hx
    exact h s hx
  · cases hnone
  · rename_i a s' hx
    exact hf a ⟨s, s', hx⟩ s' hnone

theorem returns_traverse {as : List α} (hf : ∀ a ∈ as, (f a).Returns) : (Pass.traverse f as).Returns := by
  induction as with
  | nil => exact returns_done
  | cons a rest ih =>
      apply returns_bind (hf a List.mem_cons_self)
      intro b _
      apply returns_bind (ih fun a hmem => hf a (List.mem_cons_of_mem _ hmem))
      intro _ _
      exact returns_done

end Termination

end Pass

end OpenaiRs.Fallible
