import OpenaiRs.Retry.Safety

/-!
# One deadline for the authorization and every attempt

The loops that read the clock after the authorization keep the budget of the operation. The X.509 client
reads it before its lease, so that it keeps the budget only as far as its leases are there at once.
-/

namespace OpenaiRs.Retry

open Rounds

section Budgets

/-- No attempt is sent after the deadline, or with a timeout that goes beyond it. -/
def WithinBudget (overallTimeout : ℕ) (run : LaneRun) : Prop :=
  ∀ timeout sentAt outcome, .sent timeout sentAt outcome ∈ run.log →
    sentAt < overallTimeout ∧ timeout + sentAt ≤ overallTimeout

variable {retryable refreshable : Bool} {succeeds : ℕ → Bool} {maxRetries overallTimeout : ℕ}

/-- An event that sends does so within the budget. -/
def InBudget (overallTimeout : ℕ) (e : Event) : Prop :=
  ∀ timeout sentAt outcome, e = .sent timeout sentAt outcome →
    sentAt < overallTimeout ∧ timeout + sentAt ≤ overallTimeout

theorem withinBudget_of_forall {run : LaneRun} (h : ∀ e ∈ run.log, InBudget overallTimeout e) :
    WithinBudget overallTimeout run :=
  fun timeout sentAt outcome hmem => h _ hmem timeout sentAt outcome rfl

theorem attempt_inBudget {r : Round} (budget : r.sentAt < overallTimeout) :
    InBudget overallTimeout (attempt overallTimeout r) := by
  intro timeout sentAt outcome he
  obtain ⟨rfl, rfl, rfl⟩ := Event.sent.inj he
  exact ⟨budget, by omega⟩

theorem Allowed.inBudget {s : LoopState} {r : Round} {iteration : Step}
    (h : Allowed retryable refreshable succeeds maxRetries overallTimeout s r iteration) :
    ∀ e ∈ iteration.events, InBudget overallTimeout e := by
  cases h with
  | refused error => simp [Iteration.events]
  | ended budget => simpa [Iteration.events] using attempt_inBudget budget
  | late budget => simpa [Iteration.events, InBudget] using attempt_inBudget budget
  | discardedLate budget => simpa [Iteration.events, InBudget] using attempt_inBudget budget
  | refreshed budget => simpa [Iteration.events, InBudget] using attempt_inBudget budget
  | retried budget => simpa [Iteration.events, InBudget] using attempt_inBudget budget
  | discardedRetried budget => simpa [Iteration.events, InBudget] using attempt_inBudget budget

theorem Lane.withinBudget (lane : Lane) (client : Transport) (rounds : List Round) :
    WithinBudget client.overallTimeout (lane.run client rounds) :=
  withinBudget_of_forall
    (forall_mem_log (fun s r => (lane.step_allowed client s r).inBudget) .start rounds)

theorem sendOneShotForm_withinBudget (client : Transport) (r : Round) :
    WithinBudget client.overallTimeout (sendOneShotForm client r) := by
  apply withinBudget_of_forall
  rw [log_sendOneShotForm]
  cases hauth : client.auth.authorizationWithBudget r client.overallTimeout with
  | error error => simp
  | ok authorized =>
      obtain ⟨generation, remaining⟩ := authorized
      obtain ⟨hopen, rfl, -⟩ := authorizationWithBudget_ok hauth
      cases r.built with
      | false => simp
      | true => simpa [attempt] using attempt_inBudget hopen

end Budgets

section Leases

def isUnauthorized : Outcome → Bool
  | .failed _ => false
  | .response answer => answer.status = unauthorized

/-- The leases that the loop sends an attempt with are there at once. -/
def PromptLeases (requestTimeout : ℕ) (authReplayed : Bool) : List LeaseRound → Prop
  | [] => True
  | r :: rounds =>
      r.beforeLease < requestTimeout → r.lease = true →
        r.sentAt ≤ r.beforeLease ∧
          (isUnauthorized r.outcome = true → authReplayed = false →
            PromptLeases requestTimeout true rounds)

/-- What an iteration of the X.509 client does. -/
theorem executeJson_cases (requestTimeout : ℕ) (authReplayed : Bool) (r : LeaseRound) :
    ((requestTimeout ≤ r.beforeLease ∨ r.lease = false) ∧
        ∃ verdict, executeJson requestTimeout authReplayed r = .done [] verdict) ∨
      (r.beforeLease < requestTimeout ∧ r.lease = true ∧
        (isUnauthorized r.outcome = true ∧ authReplayed = false) ∧
        executeJson requestTimeout authReplayed r =
          .again [.sent (requestTimeout - r.beforeLease) r.sentAt r.outcome, .refreshed] true) ∨
      (r.beforeLease < requestTimeout ∧ r.lease = true ∧
        ¬ (isUnauthorized r.outcome = true ∧ authReplayed = false) ∧
        ∃ verdict, executeJson requestTimeout authReplayed r =
          .done [.sent (requestTimeout - r.beforeLease) r.sentAt r.outcome] verdict) := by
  rw [executeJson]
  by_cases hopen : r.beforeLease < requestTimeout
  · rw [remainingTime_of_lt hopen]
    cases hlease : r.lease with
    | false => exact .inl ⟨.inr rfl, _, rfl⟩
    | true =>
        refine .inr ?_
        cases houtcome : r.outcome with
        | failed error => exact .inr ⟨hopen, rfl, by simp [isUnauthorized], _, rfl⟩
        | response response =>
            by_cases hrefresh : response.status = unauthorized ∧ authReplayed = false
            · refine .inl ⟨hopen, rfl, ?_, ?_⟩
              · simpa [isUnauthorized] using hrefresh
              · simp [hrefresh.1, hrefresh.2]
            · refine .inr ⟨hopen, rfl, by simpa [isUnauthorized] using hrefresh, ?_⟩
              have hkept : (decide (response.status = unauthorized) && !authReplayed) = false := by
                simpa using hrefresh
              simp only [hkept]
              by_cases hsuccess : response.status = 200
              · exact ⟨.ok response, by simp [hsuccess]⟩
              · exact ⟨.error (.api response), by simp [hsuccess]⟩
  · rw [remainingTime_of_le (Nat.le_of_not_lt hopen)]
    exact .inl ⟨.inl (Nat.le_of_not_lt hopen), _, rfl⟩

theorem withinBudget_after {overallTimeout : ℕ} {run : LaneRun} {events : List Event} :
    WithinBudget overallTimeout (run.after events) ↔
      (∀ e ∈ events, InBudget overallTimeout e) ∧ WithinBudget overallTimeout run := by
  constructor
  · intro h
    refine ⟨?_, fun timeout sentAt outcome hmem => h timeout sentAt outcome ?_⟩
    · rintro e he timeout sentAt outcome rfl
      exact h timeout sentAt outcome (List.mem_append_left _ he)
    · exact List.mem_append_right _ hmem
  · rintro ⟨hevents, hrun⟩ timeout sentAt outcome hmem
    obtain hmem | hmem := List.mem_append.mp hmem
    · exact hevents _ hmem timeout sentAt outcome rfl
    · exact hrun timeout sentAt outcome hmem

/-- A budget that was read before the lease is kept exactly when the lease takes no time. -/
theorem inBudget_sent_iff {requestTimeout beforeLease sentAt : ℕ} {outcome : Outcome}
    (hopen : beforeLease < requestTimeout) :
    InBudget requestTimeout (.sent (requestTimeout - beforeLease) sentAt outcome) ↔
      sentAt ≤ beforeLease := by
  constructor
  · intro h
    have := (h _ _ _ rfl).2
    omega
  · rintro hle timeout sentAt' outcome' he
    obtain ⟨rfl, rfl, rfl⟩ := Event.sent.inj he
    omega

theorem executeJson_withinBudget_iff (requestTimeout : ℕ) (authReplayed : Bool)
    (rounds : List LeaseRound) :
    WithinBudget requestTimeout (drive (executeJson requestTimeout) authReplayed rounds) ↔
      PromptLeases requestTimeout authReplayed rounds := by
  induction rounds generalizing authReplayed with
  | nil => simp [drive, WithinBudget, PromptLeases]
  | cons r rounds ih =>
      have hrefreshed : InBudget requestTimeout .refreshed := by
        intro timeout sentAt outcome he
        cases he
      obtain ⟨hrefused, verdict, hstep⟩ | ⟨hopen, hlease, ⟨hstatus, hfirst⟩, hstep⟩ |
        ⟨hopen, hlease, hkept, verdict, hstep⟩ := executeJson_cases requestTimeout authReplayed r
      · rw [drive_done hstep]
        have hprompt : PromptLeases requestTimeout authReplayed (r :: rounds) := by
          intro hopen hlease
          obtain hlate | hnone := hrefused
          · omega
          · rw [hlease] at hnone
            cases hnone
        simpa [WithinBudget] using hprompt
      · rw [drive_again hstep, withinBudget_after, ih]
        simp [PromptLeases, hopen, hlease, hstatus, hfirst, inBudget_sent_iff hopen, hrefreshed]
      · rw [drive_done hstep]
        have hsent : WithinBudget requestTimeout
            ⟨[.sent (requestTimeout - r.beforeLease) r.sentAt r.outcome], some verdict⟩ ↔
              InBudget requestTimeout (.sent (requestTimeout - r.beforeLease) r.sentAt r.outcome) := by
          refine ⟨fun h timeout sentAt outcome he => ?_, fun h => withinBudget_of_forall ?_⟩
          · exact h timeout sentAt outcome (he ▸ List.mem_singleton_self _)
          · simpa using h
        rw [hsent, inBudget_sent_iff hopen]
        constructor
        · intro hprompt _ _
          exact ⟨hprompt, fun hstatus hfirst => absurd ⟨hstatus, hfirst⟩ hkept⟩
        · intro hprompt
          exact (hprompt hopen hlease).1

/-- Every authenticated loop keeps the budget of its operation, the X.509 client exactly in the runs whose
leases are there at once. -/
theorem authenticatedLoops_withinBudget_iff (lane : Lane) (client : Transport) (rounds : List Round) (r : Round)
    (requestTimeout : ℕ) (leases : List LeaseRound) :
    WithinBudget client.overallTimeout (lane.run client rounds) ∧
      WithinBudget client.overallTimeout (sendOneShotForm client r) ∧
      (WithinBudget requestTimeout (drive (executeJson requestTimeout) false leases) ↔
        PromptLeases requestTimeout false leases) :=
  ⟨Lane.withinBudget lane client rounds, sendOneShotForm_withinBudget client r,
    executeJson_withinBudget_iff requestTimeout false leases⟩

/-- A lease that takes four of the ten seconds leaves the attempt a timeout of ten. -/
theorem executeJson_slowLease :
    ¬ WithinBudget 10 (drive (executeJson 10) false [⟨0, true, 4, .response ⟨200, none, .absent⟩⟩]) := by
  intro h
  have := (executeJson_withinBudget_iff 10 false _).mp h
  simp [PromptLeases] at this

end Leases

end OpenaiRs.Retry
