import OpenaiRs.Text.Outcome

/-!
# Incremental decoders

An incremental decoder is fed its input in pieces and reports outputs or an error
for every piece. Its intended meaning is a function `remaining` from a state and
the rest of the input to an outcome. If every single feed answers to that
function, then so does feeding a whole list of pieces, and a complete run depends
on the concatenated input only.
-/

namespace OpenaiRs.Text

variable {σ γ β α ε : Type*}

/-- Put the outputs of an earlier feed in front of those of a later one. An error
drops them. -/
def joinOutputs (outputs : List α) : σ × Except ε (List α) → σ × Except ε (List α)
  | (s, .error e) => (s, .error e)
  | (s, .ok later) => (s, .ok (outputs ++ later))

/-- Feed pieces in order up to the first error. -/
def feedAll (feed : σ → γ → σ × Except ε (List α)) (s : σ) : List γ → σ × Except ε (List α)
  | [] => (s, .ok [])
  | piece :: rest =>
      match feed s piece with
      | (s, .error e) => (s, .error e)
      | (s, .ok outputs) => joinOutputs outputs (feedAll feed s rest)

/-- Feed pieces in order up to the first error, then finish. -/
def decodeAll (feed : σ → γ → σ × Except ε (List α)) (finish : σ → Except ε (List α)) (s : σ) :
    List γ → Except ε (List α)
  | [] => finish s
  | piece :: rest =>
      match feed s piece with
      | (_, .error e) => .error e
      | (s, .ok outputs) => (decodeAll feed finish s rest).map (outputs ++ ·)

section Answers

variable (Inv : σ → Prop) (remaining : σ → List β → Outcome α ε)

/-- What a feed of `input` may answer: either outputs and a state with the rest of the
outcome, or the error at which every continuation of the input stops. -/
def Answers (s : σ) (input : List β) : σ × Except ε (List α) → Prop
  | (after, .ok outputs) =>
      Inv after ∧ ∀ more, remaining s (input ++ more) = Outcome.after outputs (remaining after more)
  | (_, .error e) => ∀ more, ∃ outputs, remaining s (input ++ more) = (outputs, some e)

variable {Inv remaining}

theorem answers_nil {s : σ} (h : Inv s) : Answers Inv remaining s [] (s, .ok []) :=
  ⟨h, fun _ => rfl⟩

/-- Answers to two consecutive inputs compose. The first one may leave a state with
a stronger invariant. -/
theorem Answers.join {Inv' : σ → Prop} {s middle : σ} {first second : List β}
    {outputs : List α} {result : σ × Except ε (List α)}
    (hfirst : Answers Inv' remaining s first (middle, .ok outputs))
    (hsecond : Answers Inv remaining middle second result) :
    Answers Inv remaining s (first ++ second) (joinOutputs outputs result) := by
  obtain ⟨-, hrun⟩ := hfirst
  obtain ⟨after, e | later⟩ := result
  · intro more
    obtain ⟨later, heq⟩ := hsecond more
    refine ⟨outputs ++ later, ?_⟩
    rw [List.append_assoc, hrun, heq]
    rfl
  · obtain ⟨hinv, hrun'⟩ := hsecond
    refine ⟨hinv, fun more => ?_⟩
    rw [List.append_assoc, hrun, hrun', Outcome.after_after]

/-- An error answer to the front of an input is an answer to the whole input. -/
theorem Answers.error_append {s after : σ} {first : List β} {e : ε}
    (h : Answers Inv remaining s first (after, .error e)) (second : List β) :
    Answers Inv remaining s (first ++ second) (after, .error e) := by
  intro more
  rw [List.append_assoc]
  exact h (second ++ more)

/-- Feeding a list of pieces answers to their concatenated contents. -/
theorem answers_feedAll {feed : σ → γ → σ × Except ε (List α)} (contents : γ → List β)
    (pieces : List γ)
    (hfeed : ∀ s, ∀ piece ∈ pieces, Inv s →
      Answers Inv remaining s (contents piece) (feed s piece)) {s : σ} (h : Inv s) :
    Answers Inv remaining s (pieces.flatMap contents) (feedAll feed s pieces) := by
  induction pieces generalizing s with
  | nil => exact answers_nil h
  | cons piece rest ih =>
      have hpiece := hfeed s piece (by simp) h
      rw [feedAll, List.flatMap_cons]
      rcases hstep : feed s piece with ⟨middle, e | outputs⟩
      · rw [hstep] at hpiece
        exact hpiece.error_append _
      · rw [hstep] at hpiece
        refine hpiece.join (ih ?_ hpiece.1)
        intro s piece hmem
        exact hfeed s piece (List.mem_cons_of_mem _ hmem)

/-- A complete run gives the outcome of the concatenated input. -/
theorem decodeAll_eq {feed : σ → List β → σ × Except ε (List α)} {finish : σ → Except ε (List α)}
    (hfeed : ∀ s piece, Inv s → Answers Inv remaining s piece (feed s piece))
    (hfinish : ∀ s, Inv s → finish s = (remaining s []).result)
    (pieces : List (List β)) {s : σ} (h : Inv s) :
    decodeAll feed finish s pieces = (remaining s pieces.flatten).result := by
  induction pieces generalizing s with
  | nil => exact hfinish s h
  | cons piece rest ih =>
      have hpiece := hfeed s piece h
      rw [decodeAll, List.flatten_cons]
      rcases hstep : feed s piece with ⟨after, e | outputs⟩
      · rw [hstep] at hpiece
        obtain ⟨outputs, heq⟩ := hpiece rest.flatten
        rw [heq]
        rfl
      · rw [hstep] at hpiece
        obtain ⟨hafter, heq⟩ := hpiece
        rw [heq, Outcome.result_after, ← ih hafter]

end Answers

section Lossless

variable (Inv : σ → Prop) (remaining : σ → List β → Outcome α ε)

/-- An answer whose error, if it is one, has not dropped any output. -/
def Lossless (s : σ) (input : List β) : σ × Except ε (List α) → Prop
  | (after, .ok outputs) =>
      Inv after ∧ ∀ more, remaining s (input ++ more) = Outcome.after outputs (remaining after more)
  | (_, .error e) => ∀ more, remaining s (input ++ more) = ([], some e)

/-- A feed that gives no outputs, even when it succeeds. -/
def Silent (result : σ × Except ε (List α)) : Prop := ∀ outputs, result.2 = .ok outputs → outputs = []

variable {Inv remaining}

theorem Lossless.answers {s : σ} {input : List β} {result : σ × Except ε (List α)}
    (h : Lossless Inv remaining s input result) : Answers Inv remaining s input result := by
  obtain ⟨after, e | outputs⟩ := result
  · exact fun more => ⟨[], h more⟩
  · exact h

theorem Lossless.mono {Inv' : σ → Prop} (himp : ∀ s, Inv s → Inv' s) {s : σ} {input : List β}
    {result : σ × Except ε (List α)} (h : Lossless Inv remaining s input result) :
    Lossless Inv' remaining s input result := by
  obtain ⟨after, e | outputs⟩ := result
  · exact h
  · exact ⟨himp after h.1, h.2⟩

/-- Being lossless only depends on the outcome asked for. -/
theorem Lossless.transfer {s s' : σ} {input input' : List β} {result : σ × Except ε (List α)}
    (h : Lossless Inv remaining s input result)
    (heq : ∀ more, remaining s' (input' ++ more) = remaining s (input ++ more)) :
    Lossless Inv remaining s' input' result := by
  obtain ⟨after, e | outputs⟩ := result
  · intro more
    rw [heq]
    exact h more
  · refine ⟨h.1, fun more => ?_⟩
    rw [heq]
    exact h.2 more

theorem Lossless.error_append {Inv' : σ → Prop} {s after : σ} {first : List β} {e : ε}
    (h : Lossless Inv' remaining s first (after, .error e)) (second : List β) :
    Lossless Inv remaining s (first ++ second) (after, .error e) := by
  intro more
  rw [List.append_assoc]
  exact h (second ++ more)

/-- Behind a part without outputs nothing can be dropped. -/
theorem Lossless.join {Inv' : σ → Prop} {s middle : σ} {first second : List β}
    {result : σ × Except ε (List α)}
    (hfirst : Lossless Inv' remaining s first (middle, .ok []))
    (hsecond : Lossless Inv remaining middle second result) :
    Lossless Inv remaining s (first ++ second) (joinOutputs [] result) := by
  obtain ⟨-, hrun⟩ := hfirst
  obtain ⟨after, e | later⟩ := result
  · intro more
    rw [List.append_assoc, hrun, hsecond more]
    rfl
  · obtain ⟨hinv, hrun'⟩ := hsecond
    refine ⟨hinv, fun more => ?_⟩
    rw [List.append_assoc, hrun, hrun', Outcome.after_nil]
    rfl

/-- A list of pieces without outputs is fed without loss. -/
theorem lossless_feedAll {feed : σ → γ → σ × Except ε (List α)} (contents : γ → List β)
    (pieces : List γ)
    (hfeed : ∀ s, ∀ piece ∈ pieces, Inv s →
      Lossless Inv remaining s (contents piece) (feed s piece) ∧ Silent (feed s piece))
    {s : σ} (h : Inv s) :
    Lossless Inv remaining s (pieces.flatMap contents) (feedAll feed s pieces) ∧
      Silent (feedAll feed s pieces) := by
  induction pieces generalizing s with
  | nil => exact ⟨⟨h, fun _ => rfl⟩, fun _ hok => (Except.ok.inj hok).symm⟩
  | cons piece rest ih =>
      obtain ⟨hpiece, hsilent⟩ := hfeed s piece (by simp) h
      rw [feedAll, List.flatMap_cons]
      rcases hstep : feed s piece with ⟨middle, e | outputs⟩
      · rw [hstep] at hpiece
        exact ⟨hpiece.error_append _, by intro outputs hok; cases hok⟩
      · rw [hstep] at hpiece hsilent
        obtain rfl : outputs = [] := hsilent outputs rfl
        obtain ⟨hrest, hquiet⟩ := ih
          (fun s piece hmem => hfeed s piece (List.mem_cons_of_mem _ hmem)) hpiece.1
        refine ⟨hpiece.join hrest, ?_⟩
        simp only
        rcases hlater : feedAll feed middle rest with ⟨after, e | later⟩
        · intro outputs hok
          cases hok
        · rw [hlater] at hquiet
          intro outputs hok
          obtain rfl : later = outputs := Except.ok.inj hok
          exact hquiet later rfl

end Lossless

end OpenaiRs.Text
