import OpenaiRs.TokenManager.Manager

/-!
# The refresh gate

The gate admits one call at a time to the selection of a session, its exchange, and the two
updates behind it. What a call behind the gate knows is not changed by the others.
-/

namespace OpenaiRs.TokenManager

open Interleaving

section Gate

/-- The call holds the refresh gate. -/
def Pc.Gated (pc : Pc) : Prop := pc.Uncommitted ∨ pc.Committed ∨ ∃ exit, pc = .releasing exit

/-- A call that is behind the gate holds it. -/
def HoldsGate (m : Manager) (i : Nat) (t : Task) : Prop := t.pc.Gated → m.gate = some i

variable {m m' : Manager} {i : Nat} {call : Call} {pc pc' : Pc} {choice : Choice} {started : List Task}

theorem Pc.Outer.not_gated (h : pc.Outer) : ¬ pc.Gated := by
  rintro (huncommitted | hcommitted | ⟨exit, rfl⟩)
  · cases pc <;> first | exact h | exact huncommitted
  · cases pc <;> first | exact h | exact hcommitted
  · exact h

/-- A call that is not behind the gate has not reached it, has ended, or is a save that has outlived
its call. -/
theorem Pc.of_not_gated (h : ¬ pc.Gated) :
    pc.Outer ∨ (∃ exit, pc = .ended exit) ∨ ∃ session, pc = .detached session := by
  cases pc with
  | started => exact .inl trivial
  | checking now => exact .inl trivial
  | locking => exact .inl trivial
  | ended exit => exact .inr (.inl ⟨exit, rfl⟩)
  | detached session => exact .inr (.inr ⟨session, rfl⟩)
  | releasing exit => exact absurd (.inr (.inr ⟨exit, rfl⟩)) h
  | exchanging session => exact absurd (.inr (.inl trivial)) h
  | stamping session tokens => exact absurd (.inr (.inl trivial)) h
  | saving session => exact absurd (.inr (.inl trivial)) h
  | storing session => exact absurd (.inr (.inl trivial)) h
  | _ => exact absurd (.inl trivial) h

theorem not_gated_ended (exit : Exit) : ¬ (Pc.ended exit).Gated := by
  rintro (h | h | ⟨_, h⟩)
  · exact h
  · exact h
  · cases h

theorem not_gated_detached (session : StoredCodexSession) : ¬ (Pc.detached session).Gated := by
  rintro (h | h | ⟨_, h⟩)
  · exact h
  · exact h
  · cases h

theorem GivesUp.uncommitted {exit : Exit} (h : GivesUp m call pc choice exit) : pc.Uncommitted := by
  cases h with
  | dropped huncommitted => exact huncommitted
  | clock _ huncommitted => exact huncommitted
  | unloaded => exact trivial
  | empty => exact trivial
  | unsent => exact trivial

@[simp] theorem finish_gate (m : Manager) (exit : Exit) : (m.finish exit).gate = m.gate := by
  cases exit <;> rfl

@[simp] theorem finish_cached (m : Manager) (exit : Exit) : (m.finish exit).cached = m.cached := by
  cases exit <;> rfl

@[simp] theorem finish_stored (m : Manager) (exit : Exit) : (m.finish exit).stored = m.stored := by
  cases exit <;> rfl

@[simp] theorem finish_exchanges (m : Manager) (exit : Exit) :
    (m.finish exit).exchanges = m.exchanges := by
  cases exit <;> rfl

@[simp] theorem finish_saved (m : Manager) (exit : Exit) : (m.finish exit).saved = m.saved := by
  cases exit <;> rfl

/-- A step keeps the gate, takes it when it is free, or gives it back. -/
theorem Step.gate (h : Step m i call pc choice m' pc' started) :
    (m'.gate = m.gate ∧ (pc'.Gated → pc.Gated)) ∨ (m.gate = none ∧ m'.gate = some i) ∨
      (pc.Gated ∧ m'.gate = none ∧ ¬ pc'.Gated) := by
  have hfrom : ∀ {pc : Pc}, pc.Committed → pc.Gated := fun h => .inr (.inl h)
  cases h with
  | lock hnone => exact .inr (.inl ⟨hnone, rfl⟩)
  | @release exit => exact .inr (.inr ⟨.inr (.inr ⟨exit, rfl⟩), by simp, not_gated_ended exit⟩)
  | quit => exact .inl ⟨rfl, fun h => absurd h (not_gated_ended _)⟩
  | checking => exact .inl ⟨rfl, fun h => absurd h (Pc.Outer.not_gated trivial)⟩
  | usable => exact .inl ⟨by simp, fun h => absurd h (not_gated_ended _)⟩
  | queue => exact .inl ⟨rfl, fun h => absurd h (Pc.Outer.not_gated trivial)⟩
  | giveUp hgives => exact .inl ⟨rfl, fun _ => .inl hgives.uncommitted⟩
  | broken hcommitted => exact .inl ⟨rfl, fun _ => hfrom hcommitted⟩
  | detach => exact .inl ⟨rfl, fun _ => hfrom trivial⟩
  | detached => exact .inl ⟨rfl, fun h => absurd h (not_gated_ended _)⟩
  | answer => exact .inl ⟨rfl, fun _ => hfrom trivial⟩
  | stamp => exact .inl ⟨rfl, fun _ => hfrom trivial⟩
  | save => exact .inl ⟨rfl, fun _ => hfrom trivial⟩
  | store => exact .inl ⟨rfl, fun _ => hfrom trivial⟩
  | _ => exact .inl ⟨rfl, fun _ => .inl trivial⟩

theorem not_gated_started {t : Task} (h : Step m i call pc choice m' pc' started) (hmem : t ∈ started) :
    ¬ t.pc.Gated := by
  cases h with
  | detach =>
      rw [List.mem_singleton] at hmem
      rw [hmem]
      exact not_gated_detached _
  | _ => cases hmem

theorem gate_stable :
    System.Stable system (fun _ _ => True) (fun _ => True) (fun _ => True) HoldsGate where
  act {cfg i choice t m' t' started} _ _ _ hact _ hgate := by
    obtain ⟨pc', rfl, hstep⟩ := act_step hact
    refine ⟨trivial, ?_, fun u hmem j hgated => absurd hgated (not_gated_started hstep hmem)⟩
    intro hgated
    obtain ⟨hsame, hbefore⟩ | ⟨-, htaken⟩ | ⟨-, -, hnot⟩ := hstep.gate
    · exact hsame.trans (hgate (hbefore hgated))
    · exact htaken
    · exact absurd hgated hnot
  other {cfg i choice t m' t' started j u} _ _ _ hact _ hgate hne _ hother := by
    obtain ⟨pc', rfl, hstep⟩ := act_step hact
    intro hgated
    have hheld := hother hgated
    obtain ⟨hsame, -⟩ | ⟨hnone, -⟩ | ⟨hheld', -⟩ := hstep.gate
    · exact hsame.trans hheld
    · rw [hheld] at hnone
      cases hnone
    · rw [hgate hheld'] at hheld
      cases hheld
      exact absurd rfl hne
  env {cfg event m' started} _ _ henv _ := by
    cases event with
    | call call =>
        cases henv
        refine ⟨trivial, fun _ _ _ hgate => hgate, ?_⟩
        intro u hmem j hgated
        rw [List.mem_singleton] at hmem
        rw [hmem] at hgated
        exact absurd hgated (Pc.Outer.not_gated trivial)
    | write content =>
        cases henv
        exact ⟨trivial, fun _ _ _ hgate => hgate, by simp⟩

/-- Every call that is behind the gate holds it. -/
abbrev Exclusive (cfg : Config Manager Task) : Prop := System.Holds (fun _ => True) HoldsGate cfg

theorem exclusive_preserved : system.Preserved (fun _ _ => True) Exclusive :=
  gate_stable.preserved_self

theorem exclusive_start (initial : Option StoredCodexSession) : Exclusive (start initial) :=
  ⟨trivial, fun _ _ h => by cases h⟩

/-- Two calls are never both behind the gate. -/
theorem Exclusive.eq {cfg : Config Manager Task} (h : Exclusive cfg) {i j : Nat} {t u : Task}
    (hi : cfg.tasks[i]? = some t) (hj : cfg.tasks[j]? = some u) (ht : t.pc.Gated) (hu : u.pc.Gated) :
    i = j := by
  have hheld := (h.tasks i t hi ht).symm.trans (h.tasks j u hj hu)
  exact Option.some.inj hheld

theorem Exclusive.taken {cfg : Config Manager Task} (h : Exclusive cfg) {i : Nat} {t : Task}
    (hi : cfg.tasks[i]? = some t) (ht : t.pc.Gated) : cfg.shared.gate ≠ none := by
  rw [h.tasks i t hi ht]
  exact Option.some_ne_none i

/-- A step of a call that does not hold the gate, taken while another one does: it leaves the cache
and the exchanges alone, and writes the store only if it is a save that has outlived its call. -/
theorem Step.outside (h : Step m i call pc choice m' pc' started) (hgated : ¬ pc.Gated)
    (htaken : m.gate ≠ none) : m'.cached = m.cached ∧ m'.exchanges = m.exchanges ∧
      ((m'.stored = m.stored ∧ m'.saved = m.saved) ∨ ∃ session, pc = .detached session ∧ m' = m.save session) := by
  have hcommitted : pc.Committed → False := fun h => hgated (.inr (.inl h))
  have huncommitted : pc.Uncommitted → False := fun h => hgated (.inl h)
  cases h with
  | quit => exact ⟨rfl, rfl, .inl ⟨rfl, rfl⟩⟩
  | checking => exact ⟨rfl, rfl, .inl ⟨rfl, rfl⟩⟩
  | usable => exact ⟨by simp, by simp, .inl ⟨by simp, by simp⟩⟩
  | queue => exact ⟨rfl, rfl, .inl ⟨rfl, rfl⟩⟩
  | lock hnone => exact absurd hnone htaken
  | giveUp hgives => exact (huncommitted hgives.uncommitted).elim
  | broken h => exact (hcommitted h).elim
  | release => exact (hgated (.inr (.inr ⟨_, rfl⟩))).elim
  | detached => exact ⟨rfl, rfl, .inr ⟨_, rfl, rfl⟩⟩
  | answer => exact (hcommitted trivial).elim
  | stamp => exact (hcommitted trivial).elim
  | save => exact (hcommitted trivial).elim
  | store => exact (hcommitted trivial).elim
  | detach => exact (hcommitted trivial).elim
  | _ => exact (huncommitted trivial).elim

end Gate

end OpenaiRs.TokenManager
