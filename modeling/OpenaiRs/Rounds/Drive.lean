import Mathlib.Data.List.Basic

/-!
# Loops driven by rounds

A loop that meets its surroundings once in each iteration: the surroundings answer a round, and the
iteration performs events and goes on in another state, or ends with a verdict. A run is given as many
rounds as one likes; it has no verdict when they do not take it to its end.
-/

namespace OpenaiRs.Rounds

variable {σ ρ ρ' ε ν : Type}

section Runs

inductive Iteration (σ ε ν : Type) where
  | again (events : List ε) (next : σ)
  | done (events : List ε) (verdict : ν)

def Iteration.events : Iteration σ ε ν → List ε
  | .again events _ => events
  | .done events _ => events

structure Run (ε ν : Type) where
  log : List ε
  verdict : Option ν

/-- The run with events in front. -/
def Run.after (run : Run ε ν) (events : List ε) : Run ε ν := ⟨events ++ run.log, run.verdict⟩

/-- The run without the events that do not show. -/
def Run.filter (run : Run ε ν) (shows : ε → Bool) : Run ε ν := ⟨run.log.filter shows, run.verdict⟩

@[simp] theorem Run.filter_after (run : Run ε ν) (events : List ε) (shows : ε → Bool) :
    (run.after events).filter shows = (run.filter shows).after (events.filter shows) := by
  simp [filter, after]

def drive (step : σ → ρ → Iteration σ ε ν) (s : σ) : List ρ → Run ε ν
  | [] => ⟨[], none⟩
  | r :: rounds =>
      match step s r with
      | .again events next => (drive step next rounds).after events
      | .done events verdict => ⟨events, some verdict⟩

/-- The rounds up to the one that ends the loop. -/
def taken (step : σ → ρ → Iteration σ ε ν) (s : σ) : List ρ → List ρ
  | [] => []
  | r :: rounds =>
      match step s r with
      | .again _ next => r :: taken step next rounds
      | .done _ _ => [r]

end Runs

section Rules

variable {step : σ → ρ → Iteration σ ε ν} {s : σ} {r : ρ} {rounds : List ρ}

theorem drive_again {events : List ε} {next : σ} (h : step s r = .again events next) :
    drive step s (r :: rounds) = (drive step next rounds).after events := by
  simp [drive, h]

theorem drive_done {events : List ε} {verdict : ν} (h : step s r = .done events verdict) :
    drive step s (r :: rounds) = ⟨events, some verdict⟩ := by
  simp [drive, h]

/-- The rounds behind the end make no difference. -/
theorem drive_taken (step : σ → ρ → Iteration σ ε ν) (s : σ) (rounds : List ρ) :
    drive step s (taken step s rounds) = drive step s rounds := by
  induction rounds generalizing s with
  | nil => rfl
  | cons r rounds ih =>
      rw [taken]
      cases h : step s r with
      | again events next =>
          dsimp only
          rw [drive_again h, drive_again h, ih]
      | done events verdict =>
          dsimp only
          rw [drive_done h, drive_done h]

theorem taken_sublist (step : σ → ρ → Iteration σ ε ν) (s : σ) (rounds : List ρ) :
    (taken step s rounds).Sublist rounds := by
  induction rounds generalizing s with
  | nil => exact .slnil
  | cons r rounds ih =>
      rw [taken]
      cases step s r with
      | again events next => exact (ih next).cons_cons r
      | done events verdict => exact (List.nil_sublist rounds).cons_cons r

/-- A loop that has not ended has taken all rounds. -/
theorem taken_of_verdict_eq_none (h : (drive step s rounds).verdict = none) : taken step s rounds = rounds := by
  induction rounds generalizing s with
  | nil => rfl
  | cons r rounds ih =>
      rw [taken]
      cases hstep : step s r with
      | again events next =>
          rw [drive_again hstep] at h
          dsimp only
          rw [ih h]
      | done events verdict =>
          rw [drive_done hstep] at h
          cases h

/-- What holds of the run without rounds, of the run that an iteration ends, and of a run with the events
of an iteration in front if it holds of the run, holds of every run whose rounds are allowed. -/
theorem drive_induction_of (allowed : ρ → Prop) {motive : σ → Run ε ν → Prop} (nil : ∀ s, motive s ⟨[], none⟩)
    (again : ∀ s r events next run, allowed r → step s r = .again events next → motive next run →
      motive s (run.after events))
    (done : ∀ s r events verdict, allowed r → step s r = .done events verdict →
      motive s ⟨events, some verdict⟩)
    (s : σ) {rounds : List ρ} (hrounds : ∀ r ∈ rounds, allowed r) : motive s (drive step s rounds) := by
  induction rounds generalizing s with
  | nil => exact nil s
  | cons r rounds ih =>
      obtain ⟨hfirst, hrest⟩ := List.forall_mem_cons.mp hrounds
      cases h : step s r with
      | again events next =>
          rw [drive_again h]
          exact again s r events next _ hfirst h (ih next hrest)
      | done events verdict =>
          rw [drive_done h]
          exact done s r events verdict hfirst h

theorem drive_induction {motive : σ → Run ε ν → Prop} (nil : ∀ s, motive s ⟨[], none⟩)
    (again : ∀ s r events next run, step s r = .again events next → motive next run →
      motive s (run.after events))
    (done : ∀ s r events verdict, step s r = .done events verdict → motive s ⟨events, some verdict⟩)
    (s : σ) (rounds : List ρ) : motive s (drive step s rounds) :=
  drive_induction_of (fun _ => True) nil (fun s r events next run _ => again s r events next run)
    (fun s r events verdict _ => done s r events verdict) s fun _ _ => trivial

/-- An event of the log is an event of an iteration. -/
theorem forall_mem_log {p : ε → Prop} (h : ∀ s r, ∀ e ∈ (step s r).events, p e) (s : σ)
    (rounds : List ρ) : ∀ e ∈ (drive step s rounds).log, p e := by
  refine drive_induction (motive := fun _ run => ∀ e ∈ run.log, p e) ?_ ?_ ?_ s rounds
  · intro s e he
    cases he
  · intro s r events next run hstep hrun e he
    obtain he | he := List.mem_append.mp he
    · exact h s r e (by simpa [hstep, Iteration.events] using he)
    · exact hrun e he
  · intro s r events verdict hstep e he
    exact h s r e (by simpa [hstep, Iteration.events] using he)

/-- What an event asks of the events before it, and the iteration itself provides, the log provides. -/
theorem forall_split_log {p : List ε → ε → Prop}
    (grows : ∀ earlier before e, p before e → p (earlier ++ before) e)
    (h : ∀ s r before e after, (step s r).events = before ++ e :: after → p before e) (s : σ)
    (rounds : List ρ) :
    ∀ before e after, (drive step s rounds).log = before ++ e :: after → p before e := by
  refine drive_induction (motive := fun _ run => ∀ before e after,
    run.log = before ++ e :: after → p before e) ?_ ?_ ?_ s rounds
  · intro s before e after hnil
    simp at hnil
  · intro s r events next run hstep hrun before e after hsplit
    obtain ⟨earlier, hbefore, hlater⟩ | ⟨middle, hevents, hafter⟩ := List.append_eq_append_iff.mp hsplit
    · rw [hbefore]
      exact grows events earlier e (hrun earlier e after hlater)
    · cases middle with
      | nil =>
          have := hrun [] e after (by simpa using hafter.symm)
          rw [List.append_nil] at hevents
          simpa using grows before [] e this
      | cons e' middle =>
          obtain ⟨rfl, -⟩ := List.cons.inj (by simpa using hafter)
          exact h s r before e middle (by simpa [hstep, Iteration.events] using hevents)
  · intro s r events verdict hstep before e after hsplit
    exact h s r before e after (by simpa [hstep, Iteration.events] using hsplit)

/-- What an event asks of the events after it, and the iteration itself provides whatever comes next, the
run provides. -/
theorem forall_split_run {p : ε → List ε → Option ν → Prop}
    (again : ∀ s r events next, step s r = .again events next →
      ∀ before e after, events = before ++ e :: after → ∀ log verdict, p e (after ++ log) verdict)
    (done : ∀ s r events verdict, step s r = .done events verdict →
      ∀ before e after, events = before ++ e :: after → p e after (some verdict)) (s : σ)
    (rounds : List ρ) :
    ∀ before e after, (drive step s rounds).log = before ++ e :: after →
      p e after (drive step s rounds).verdict := by
  refine drive_induction (motive := fun _ run => ∀ before e after,
    run.log = before ++ e :: after → p e after run.verdict) ?_ ?_ done s rounds
  · intro s before e after hnil
    simp at hnil
  · intro s r events next run hstep hrun before e after hsplit
    obtain ⟨earlier, -, hlater⟩ | ⟨middle, hevents, hafter⟩ := List.append_eq_append_iff.mp hsplit
    · exact hrun earlier e after hlater
    · cases middle with
      | nil => exact hrun [] e after (by simpa using hafter.symm)
      | cons e' middle =>
          obtain ⟨rfl, rfl⟩ := List.cons.inj hafter
          exact again s r events next hstep before e middle hevents run.log run.verdict

/-- The places of a list are its first one and those of the rest. -/
theorem forall_split_cons {p : List ε → ε → List ε → Prop} {x : ε} {l : List ε} :
    (∀ before e after, x :: l = before ++ e :: after → p before e after) ↔
      p [] x l ∧ ∀ before e after, l = before ++ e :: after → p (x :: before) e after := by
  constructor
  · intro h
    exact ⟨h [] x l rfl, fun before e after hl => h (x :: before) e after (by simp [hl])⟩
  · rintro ⟨hfirst, hrest⟩ before e after hsplit
    cases before with
    | nil =>
        obtain ⟨rfl, rfl⟩ := List.cons.inj hsplit
        exact hfirst
    | cons y before =>
        obtain ⟨rfl, hl⟩ := List.cons.inj hsplit
        exact hrest before e after hl

theorem forall_split_nil {p : List ε → ε → List ε → Prop} :
    ∀ before e after, ([] : List ε) = before ++ e :: after → p before e after := by
  intro before e after h
  simp at h

/-- A potential that pays for the counted events bounds their number. -/
theorem countP_log_le (allowed : ρ → Prop) {p : ε → Bool} (potential : σ → ℕ)
    (again : ∀ s r events next, allowed r → step s r = .again events next →
      events.countP p + potential next ≤ potential s)
    (done : ∀ s r events verdict, allowed r → step s r = .done events verdict → events.countP p ≤ potential s)
    (s : σ) {rounds : List ρ} (hrounds : ∀ r ∈ rounds, allowed r) :
    (drive step s rounds).log.countP p ≤ potential s := by
  refine drive_induction_of allowed (motive := fun s run => run.log.countP p ≤ potential s) ?_ ?_ done s hrounds
  · intro s
    simp
  · intro s r events next run hr hstep hrun
    have := again s r events next hr hstep
    rw [Run.after, List.countP_append]
    omega

/-- A loop whose every further iteration lowers a measure ends within as many rounds. -/
theorem verdict_isSome_of_measure (allowed : ρ → Prop) (measure : σ → ℕ)
    (again : ∀ s r events next, allowed r → step s r = .again events next → measure next < measure s)
    (hrounds : ∀ r ∈ rounds, allowed r) (h : measure s < rounds.length) :
    (drive step s rounds).verdict.isSome := by
  induction rounds generalizing s with
  | nil => simp at h
  | cons r rounds ih =>
      obtain ⟨hfirst, hrest⟩ := List.forall_mem_cons.mp hrounds
      cases hstep : step s r with
      | again events next =>
          rw [drive_again hstep]
          have := again s r events next hfirst hstep
          exact ih hrest (by simp only [List.length_cons] at h; omega)
      | done events verdict =>
          rw [drive_done hstep]
          rfl

end Rules

section Comparison

/-- Two iterations that look alike and go on in the same state. -/
def Iteration.Alike (shows : ε → Bool) : Iteration σ ε ν → Iteration σ ε ν → Prop
  | .again events next, .again events' next' =>
      events.filter shows = events'.filter shows ∧ next = next'
  | .done events verdict, .done events' verdict' =>
      events.filter shows = events'.filter shows ∧ verdict = verdict'
  | _, _ => False

variable {step : σ → ρ → Iteration σ ε ν} {step' : σ → ρ' → Iteration σ ε ν} {shows : ε → Bool}
  {iteration iteration' iteration'' : Iteration σ ε ν}

theorem Iteration.Alike.refl (iteration : Iteration σ ε ν) : iteration.Alike shows iteration := by
  cases iteration <;> exact ⟨rfl, rfl⟩

theorem Iteration.Alike.of_eq (h : iteration = iteration') : iteration.Alike shows iteration' :=
  h ▸ .refl iteration

theorem Iteration.Alike.trans (h : iteration.Alike shows iteration')
    (h' : iteration'.Alike shows iteration'') : iteration.Alike shows iteration'' := by
  cases iteration <;> cases iteration' <;> cases iteration''
  case again.again.again => exact ⟨h.1.trans h'.1, h.2.trans h'.2⟩
  case done.done.done => exact ⟨h.1.trans h'.1, h.2.trans h'.2⟩
  all_goals first | exact h.elim | exact h'.elim

theorem Iteration.Alike.symm (h : iteration.Alike shows iteration') : iteration'.Alike shows iteration := by
  cases iteration <;> cases iteration'
  · exact ⟨h.1.symm, h.2.symm⟩
  · exact h.elim
  · exact h.elim
  · exact ⟨h.1.symm, h.2.symm⟩

/-- Loops whose iterations look alike on related rounds have runs that look alike. -/
theorem drive_alike {related : ρ → ρ' → Prop}
    (h : ∀ s r r', related r r' → (step s r).Alike shows (step' s r')) {rounds : List ρ}
    {rounds' : List ρ'} (hrounds : List.Forall₂ related rounds rounds') (s : σ) :
    (drive step s rounds).filter shows = (drive step' s rounds').filter shows := by
  induction hrounds generalizing s with
  | nil => rfl
  | @cons r r' rounds rounds' hr _ ih =>
      have halike := h s r r' hr
      cases hstep : step s r with
      | again events next =>
          cases hstep' : step' s r' with
          | again events' next' =>
              rw [hstep, hstep'] at halike
              obtain ⟨hevents, rfl⟩ := halike
              rw [drive_again hstep, drive_again hstep', Run.filter_after, Run.filter_after, hevents, ih]
          | done events' verdict' =>
              rw [hstep, hstep'] at halike
              exact halike.elim
      | done events verdict =>
          cases hstep' : step' s r' with
          | again events' next' =>
              rw [hstep, hstep'] at halike
              exact halike.elim
          | done events' verdict' =>
              rw [hstep, hstep'] at halike
              obtain ⟨hevents, rfl⟩ := halike
              rw [drive_done hstep, drive_done hstep', Run.filter, Run.filter, hevents]

end Comparison

end OpenaiRs.Rounds
