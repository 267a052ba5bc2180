import Mathlib.Tactic.Common

/-!
# Outcomes of fail-stop runs

A fail-stop machine reads symbols one at a time. Every step either gives some
outputs and the next state or stops the run with an error; at end of input the
state is flushed. The outcome keeps the outputs given before the error, which a
plain `Except` forgets.
-/

namespace OpenaiRs.Text

/-- The outputs of a run and the error that stopped it, if any. -/
abbrev Outcome (α ε : Type*) := List α × Option ε

namespace Outcome

variable {α ε : Type*}

/-- Put the outputs of an earlier part in front of an outcome. -/
def after (outputs : List α) (rest : Outcome α ε) : Outcome α ε := (outputs ++ rest.1, rest.2)

/-- A run that fails gives only its error. -/
def result (outcome : Outcome α ε) : Except ε (List α) :=
  match outcome.2 with
  | none => .ok outcome.1
  | some e => .error e

theorem after_nil (rest : Outcome α ε) : after [] rest = rest := rfl

theorem after_after (first second : List α) (rest : Outcome α ε) :
    after first (after second rest) = after (first ++ second) rest := by
  simp [after]

theorem result_after (outputs : List α) (rest : Outcome α ε) :
    (after outputs rest).result = rest.result.map (outputs ++ ·) := by
  obtain ⟨more, e⟩ := rest
  cases e <;> rfl

end Outcome

section Run

variable {σ β α ε : Type*} (step : σ → β → Except ε (σ × List α)) (flush : σ → List α)

/-- Read the symbols in order and flush the state at the end. -/
def runSteps (s : σ) : List β → Outcome α ε
  | [] => (flush s, none)
  | b :: rest =>
      match step s b with
      | .error e => ([], some e)
      | .ok (s, outputs) => Outcome.after outputs (runSteps s rest)

variable {step flush}

theorem runSteps_nil (s : σ) : runSteps step flush s [] = (flush s, none) := rfl

theorem runSteps_cons_error {s : σ} {b : β} {e : ε} (h : step s b = .error e) (rest : List β) :
    runSteps step flush s (b :: rest) = ([], some e) := by
  simp [runSteps, h]

theorem runSteps_cons_ok {s s' : σ} {b : β} {outputs : List α}
    (h : step s b = .ok (s', outputs)) (rest : List β) :
    runSteps step flush s (b :: rest) = Outcome.after outputs (runSteps step flush s' rest) := by
  simp [runSteps, h]

end Run

end OpenaiRs.Text
