import Mathlib.Data.List.Basic

/-!
# Runs of a machine

A machine takes actions of its surroundings, as far as its state allows them, and answers each with an
output. A run is kept as the list of its transitions.
-/

namespace OpenaiRs.Machines

variable {σ α ω : Type}

section Runs

structure Transition (σ α ω : Type) where
  before : σ
  action : α
  output : ω
  after : σ

/-- The runs of a step function; `none` means that the action is not possible. -/
inductive Run (step : σ → α → Option (σ × ω)) : σ → List (Transition σ α ω) → σ → Prop
  | nil (s : σ) : Run step s [] s
  | cons {s s' s'' : σ} {a : α} {o : ω} {run : List (Transition σ α ω)} :
      step s a = some (s', o) → Run step s' run s'' → Run step s (⟨s, a, o, s'⟩ :: run) s''

end Runs

section Rules

variable {step : σ → α → Option (σ × ω)} {s s' : σ} {run : List (Transition σ α ω)}

/-- What every step of a certain kind keeps, and what it shows of its transition, holds along a run of
such steps. -/
theorem Run.forall_of_meets (meets : Transition σ α ω → Prop) (inv : σ → Prop)
    (shows : Transition σ α ω → Prop)
    (hstep : ∀ s a s' o, inv s → step s a = some (s', o) → meets ⟨s, a, o, s'⟩ →
      inv s' ∧ shows ⟨s, a, o, s'⟩)
    (h : Run step s run s') (hmeets : ∀ t ∈ run, meets t) (hinv : inv s) :
    inv s' ∧ ∀ t ∈ run, inv t.before ∧ shows t := by
  induction h with
  | nil s => exact ⟨hinv, by simp⟩
  | cons hfirst _ ih =>
      obtain ⟨hnext, hshows⟩ := hstep _ _ _ _ hinv hfirst (hmeets _ (.head _))
      obtain ⟨hlast, hrest⟩ := ih (fun t ht => hmeets t (.tail _ ht)) hnext
      refine ⟨hlast, ?_⟩
      intro t ht
      obtain rfl | ht := List.mem_cons.mp ht
      · exact ⟨hinv, hshows⟩
      · exact hrest t ht

theorem Run.forall (inv : σ → Prop) (shows : Transition σ α ω → Prop)
    (hstep : ∀ s a s' o, inv s → step s a = some (s', o) → inv s' ∧ shows ⟨s, a, o, s'⟩)
    (h : Run step s run s') (hinv : inv s) : inv s' ∧ ∀ t ∈ run, inv t.before ∧ shows t :=
  h.forall_of_meets (fun _ => True) inv shows (fun s a s' o hs ht _ => hstep s a s' o hs ht)
    (fun _ _ => trivial) hinv

theorem Run.invariant (inv : σ → Prop) (hstep : ∀ s a s' o, inv s → step s a = some (s', o) → inv s')
    (h : Run step s run s') (hinv : inv s) : inv s' :=
  (h.forall inv (fun _ => True) (fun s a s' o hs ht => ⟨hstep s a s' o hs ht, trivial⟩) hinv).1

/-- A run is cut before and after each of its transitions. -/
theorem Run.split {before after : List (Transition σ α ω)} {t : Transition σ α ω}
    (h : Run step s (before ++ t :: after) s') :
    Run step s before t.before ∧ step t.before t.action = some (t.after, t.output) ∧
      Run step t.after after s' := by
  induction before generalizing s with
  | nil =>
      cases h with
      | cons hfirst hrest => exact ⟨.nil _, hfirst, hrest⟩
  | cons u before ih =>
      cases h with
      | cons hfirst hrest =>
          obtain ⟨hbefore, hstep, hafter⟩ := ih hrest
          exact ⟨.cons hfirst hbefore, hstep, hafter⟩

end Rules

end OpenaiRs.Machines
