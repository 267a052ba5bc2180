import Mathlib.Tactic.Common

/-!
# Results

`Result` is `Except`. A chain of `?` succeeds when every step of it does.
-/

namespace OpenaiRs.Rust

variable {ε α β : Type}

theorem bind_eq_ok {first : Except ε α} {next : α → Except ε β} {result : β} :
    first >>= next = .ok result ↔ ∃ a, first = .ok a ∧ next a = .ok result := by
  cases first with
  | error e =>
      constructor
      · intro h
        cases h
      · rintro ⟨a, h, -⟩
        cases h
  | ok a =>
      constructor
      · exact fun h => ⟨a, rfl, h⟩
      · rintro ⟨b, hb, h⟩
        cases hb
        exact h

theorem mapError_eq_ok {ε' : Type} {f : ε → ε'} {first : Except ε α} {a : α} :
    first.mapError f = .ok a ↔ first = .ok a := by
  cases first <;> simp [Except.mapError]

/-- A check of every item passes when it passes for each. -/
theorem forM_eq_ok {items : List α} {check : α → Except ε Unit} :
    items.forM check = .ok () ↔ ∀ item ∈ items, check item = .ok () := by
  induction items with
  | nil => exact ⟨fun _ => List.forall_mem_nil _, fun _ => rfl⟩
  | cons item rest ih =>
      rw [List.forall_mem_cons, ← ih]
      constructor
      · intro h
        obtain ⟨⟨⟩, hitem, hrest⟩ := bind_eq_ok.mp h
        exact ⟨hitem, hrest⟩
      · rintro ⟨hitem, hrest⟩
        exact bind_eq_ok.mpr ⟨(), hitem, hrest⟩

/-- Every item of a sequence that is mapped without a failure gives the result in its place. -/
theorem forall₂_of_mapM_eq_ok {items : List α} {f : α → Except ε β} {results : List β}
    (h : items.mapM f = .ok results) : List.Forall₂ (fun item result => f item = .ok result) items results := by
  induction items generalizing results with
  | nil =>
      rw [List.mapM_nil] at h
      cases h
      exact .nil
  | cons item rest ih =>
      rw [List.mapM_cons] at h
      obtain ⟨result, hitem, h⟩ := bind_eq_ok.mp h
      obtain ⟨tail, htail, h⟩ := bind_eq_ok.mp h
      cases h
      exact .cons hitem (ih htail)

end OpenaiRs.Rust
