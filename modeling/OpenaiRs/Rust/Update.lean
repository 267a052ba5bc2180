import Mathlib.Tactic.Common

/-!
# Fallible updates

A method on `&mut self` that returns `Result<(), E>`. The operator `?` leaves the method
at the first error, and the changes made up to then stay. Updates are composed in order,
and the rules below carry an invariant, or a fact about every executed step, through a
whole sequence, whether it succeeds or stops.
-/

namespace OpenaiRs.Rust

/-- The state behind `&mut self` after the call, and the result. -/
abbrev Update (ε σ : Type*) := σ → σ × Except ε Unit

namespace Update

variable {ε σ α : Type*}

/-- A call that changes nothing and succeeds. -/
def skip : Update ε σ := fun s => (s, .ok ())

/-- A call that only fails. -/
def fail (e : ε) : Update ε σ := fun s => (s, .error e)

/-- `first?; second` -/
def andThen (first second : Update ε σ) : Update ε σ := fun s =>
  match first s with
  | (s, .error e) => (s, .error e)
  | (s, .ok ()) => second s

/-- A `for` loop whose body ends in `?`. -/
def all : List (Update ε σ) → Update ε σ
  | [] => skip
  | first :: rest => first.andThen (all rest)

section Compose

theorem skip_andThen (u : Update ε σ) : skip.andThen u = u := rfl

theorem andThen_skip (u : Update ε σ) : u.andThen skip = u := by
  funext s
  rw [andThen]
  rcases u s with ⟨after, e | ⟨⟨⟩⟩⟩ <;> rfl

theorem andThen_assoc (u v w : Update ε σ) :
    (u.andThen v).andThen w = u.andThen (v.andThen w) := by
  funext s
  simp only [andThen]
  rcases u s with ⟨after, e | ⟨⟨⟩⟩⟩ <;> rfl

theorem andThen_ok {u : Update ε σ} {s middle : σ} (h : u s = (middle, .ok ())) (v : Update ε σ) :
    u.andThen v s = v middle := by
  simp [andThen, h]

theorem andThen_error {u : Update ε σ} {s middle : σ} {e : ε} (h : u s = (middle, .error e))
    (v : Update ε σ) : u.andThen v s = (middle, .error e) := by
  simp [andThen, h]

/-- A composition that succeeds is two calls that succeed. -/
theorem andThen_eq_ok {u v : Update ε σ} {s after : σ} (h : u.andThen v s = (after, .ok ())) :
    ∃ middle, u s = (middle, .ok ()) ∧ v middle = (after, .ok ()) := by
  rcases hfirst : u s with ⟨middle, e | ⟨⟨⟩⟩⟩
  · rw [andThen_error hfirst] at h
    cases h
  · rw [andThen_ok hfirst] at h
    exact ⟨middle, rfl, h⟩

theorem all_append (first second : List (Update ε σ)) :
    all (first ++ second) = (all first).andThen (all second) := by
  induction first with
  | nil => rfl
  | cons u first ih => rw [List.cons_append, all, all, ih, andThen_assoc]

theorem all_singleton (u : Update ε σ) : all [u] = u := andThen_skip u

/-- A loop over loops is one loop over all their steps. -/
theorem all_flatMap (steps : α → List (Update ε σ)) (items : List α) :
    all (items.map fun item => all (steps item)) = all (items.flatMap steps) := by
  induction items with
  | nil => rfl
  | cons item items ih => rw [List.map_cons, all, ih, List.flatMap_cons, all_append]

/-- Steps that do nothing can be left out. -/
theorem all_filterMap {β : Type*} (choose : α → Option β) (step : β → Update ε σ) (items : List α) :
    all (items.map fun item => ((choose item).map step).getD skip) =
      all ((items.filterMap choose).map step) := by
  induction items with
  | nil => rfl
  | cons item items ih =>
      rcases hchoose : choose item with _ | b
      · simp only [List.map_cons, all, ih, hchoose, List.filterMap_cons, Option.map_none,
          Option.getD_none, skip_andThen]
      · simp only [List.map_cons, all, ih, hchoose, List.filterMap_cons, Option.map_some,
          Option.getD_some]

end Compose

section Rules

/-- An invariant of every step holds behind the loop, also if it stops. -/
theorem all_preserves {I : σ → Prop} {steps : List (Update ε σ)}
    (h : ∀ u ∈ steps, ∀ s, I s → I (u s).1) {s : σ} (hs : I s) : I (all steps s).1 := by
  induction steps generalizing s with
  | nil => exact hs
  | cons u rest ih =>
      have hfirst := h u (by simp) s hs
      have hrest : ∀ v ∈ rest, ∀ s, I s → I (v s).1 :=
        fun v hv => h v (List.mem_cons_of_mem _ hv)
      rcases hu : u s with ⟨middle, e | ⟨⟨⟩⟩⟩
      · rw [all, andThen_error hu]
        rwa [hu] at hfirst
      · rw [all, andThen_ok hu]
        rw [hu] at hfirst
        exact ih hrest hfirst

/-- A loop that fails fails at one of its steps, behind steps that succeed. -/
theorem all_eq_error {steps : List (Update ε σ)} {s after : σ} {e : ε}
    (h : all steps s = (after, .error e)) :
    ∃ before u rest middle, steps = before ++ u :: rest ∧ all before s = (middle, .ok ()) ∧
      u middle = (after, .error e) := by
  induction steps generalizing s with
  | nil => cases h
  | cons u rest ih =>
      rcases hu : u s with ⟨middle, e' | ⟨⟨⟩⟩⟩
      · rw [all, andThen_error hu] at h
        exact ⟨[], u, rest, s, rfl, rfl, hu.trans h⟩
      · rw [all, andThen_ok hu] at h
        obtain ⟨before, v, rest', middle', rfl, hbefore, hv⟩ := ih h
        exact ⟨u :: before, v, rest', middle', rfl, by rw [all, andThen_ok hu, hbefore], hv⟩

end Rules

end Update

end OpenaiRs.Rust
