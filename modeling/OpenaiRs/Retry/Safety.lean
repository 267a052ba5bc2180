import OpenaiRs.Retry.Lanes

/-!
# What a request loop may do

Every loop is its way to a budget, followed by the same treatment of the outcome. What an iteration may
then do is stated once, and runs are judged by it.
-/

namespace OpenaiRs.Retry

open Rounds

section Settling

/-- What the loops do with the outcome of an attempt that was sent with a timeout. -/
def settle (retryable : Bool) (succeeds : ℕ → Bool) (maxRetries overallTimeout : ℕ)
    (generation : Option UInt64) (remaining : ℕ) (s : LoopState) (r : Round) : Step :=
  match r.outcome with
  | .failed error =>
      if retryable && s.retries < maxRetries && (error.isConnect || error.isTimeout) then
        if !canWait r.waitReading r.localRetryDelay overallTimeout then
          .done [.sent remaining r.sentAt r.outcome, .checked r.waitReading r.localRetryDelay]
            (.error (.transport error))
        else
          .again [.sent remaining r.sentAt r.outcome, .checked r.waitReading r.localRetryDelay,
            .slept r.localRetryDelay] { s with retries := s.retries + 1 }
      else .done [.sent remaining r.sentAt r.outcome] (.error (.transport error))
  | .response response =>
      if response.status = unauthorized && generation.isSome && !s.authRefreshed then
        .again [.sent remaining r.sentAt r.outcome, .refreshed] { s with authRefreshed := true }
      else if succeeds response.status then .done [.sent remaining r.sentAt r.outcome] (.ok response)
      else if retryable && s.retries < maxRetries && shouldRetryResponse response then
        match retryDelay response r.localRetryDelay with
        | none => .done [.sent remaining r.sentAt r.outcome] (.error (.api response))
        | some delay =>
            if canWait r.waitReading delay overallTimeout then
              .again [.sent remaining r.sentAt r.outcome, .checked r.waitReading delay, .slept delay]
                { s with retries := s.retries + 1 }
            else
              .done [.sent remaining r.sentAt r.outcome, .checked r.waitReading delay]
                (.error (.api response))
      else .done [.sent remaining r.sentAt r.outcome] (.error (.api response))

/-- What the JSON transport does besides: after the body of a discarded response, it asks again whether
it can wait, and minds the answer when the body was logged. -/
def discarding (overallTimeout : ℕ) (r : Round) : Step → Step
  | .again [.sent remaining sentAt (.response response), .checked elapsed delay, .slept wait] next =>
      if !canWait r.discardReading delay overallTimeout && r.jsonBodyEnabled then
        .done [.sent remaining sentAt (.response response), .checked elapsed delay,
          .checked r.discardReading delay] (.error (.api response))
      else
        .again [.sent remaining sentAt (.response response), .checked elapsed delay,
          .checked r.discardReading delay, .slept wait] next
  | iteration => iteration

variable (client : Transport) (s : LoopState) (r : Round)

theorem sendWithStaticHeader_eq (operation : OperationMeta) :
    sendWithStaticHeader client s r operation =
      match client.auth.authorizationWithBudget r client.overallTimeout with
      | .error error => .done [] (.error error)
      | .ok (generation, remaining) =>
          if !r.built then .done [] (.error .request)
          else
            discarding client.overallTimeout r
              (settle (retryableOperation operation.retry client.retryPolicy)
                (fun status => operation.successStatuses.contains status) client.retryPolicy.maxRetries
                client.overallTimeout generation remaining s r) := by
  rw [sendWithStaticHeader]
  cases client.auth.authorizationWithBudget r client.overallTimeout with
  | error error => rfl
  | ok authorized =>
      obtain ⟨generation, remaining⟩ := authorized
      cases houtcome : r.outcome with
      | failed error =>
          simp only [settle, houtcome]
          split_ifs <;> rfl
      | response response =>
          simp only [settle, houtcome]
          cases hdelay : response.serverDelay <;> simp only [retryDelay, hdelay] <;> split_ifs <;>
            simp_all [discarding]

theorem sendReplayableJson_eq :
    sendReplayableJson client s r =
      match client.auth.authorizationWithBudget r client.overallTimeout with
      | .error error => .done [] (.error error)
      | .ok (generation, remaining) =>
          if !r.built then .done [] (.error .request)
          else
            settle (retryableOperation .replayable client.retryPolicy) isSuccessStatus
              client.retryPolicy.maxRetries client.overallTimeout generation remaining s r := rfl

/-- Once the form is there, the form loop is the JSON loop of the same file. -/
theorem sendReplayableForm_eq :
    sendReplayableForm client s r =
      match remainingTime r.beforeForm client.overallTimeout with
      | none => .done [] (.error .deadlineExceeded)
      | some _ =>
          match r.form with
          | .elapsed => .done [] (.error .deadlineExceeded)
          | .ready false => .done [] (.error .form)
          | .ready true => sendReplayableJson client s r := rfl

theorem sendDownloadWithQuery_eq :
    sendDownloadWithQuery client s r =
      match client.auth.authorizationWithBudget r client.overallTimeout with
      | .error error => .done [] (.error error)
      | .ok (generation, remaining) =>
          if !r.built then .done [] (.error .request)
          else
            settle (retryableOperation .safe client.retryPolicy) isSuccessStatus
              client.retryPolicy.maxRetries client.overallTimeout generation remaining s r := rfl

theorem adminSend_eq (operation : AdminOperation) :
    adminSend client s r operation =
      match remainingTime r.sentAt client.overallTimeout with
      | none => .done [] (.error .deadlineExceeded)
      | some remaining =>
          settle (retryableOperation (adminRetryClass operation.method) client.retryPolicy)
            (fun status => operation.successStatuses.contains status) client.retryPolicy.maxRetries
            client.overallTimeout none remaining s r := by
  rw [adminSend]
  cases remainingTime r.sentAt client.overallTimeout with
  | none => rfl
  | some remaining =>
      cases houtcome : r.outcome with
      | failed error => simp [settle, houtcome]
      | response response =>
          cases hdelay : response.serverDelay <;> simp [settle, houtcome, retryDelay, hdelay]

end Settling

section Iterations

/-- The attempt of a round, with what is left of the timeout when it is sent. -/
def attempt (overallTimeout : ℕ) (r : Round) : Event :=
  .sent (overallTimeout - r.sentAt) r.sentAt r.outcome

/-- What a loop makes of an outcome that it does not answer with another attempt. -/
def verdictOn (succeeds : ℕ → Bool) : Outcome → Except Error Response
  | .failed error => .error (.transport error)
  | .response response => if succeeds response.status then .ok response else .error (.api response)

/-- The delay is the one that comes before the next attempt. -/
def DelayAfter (outcome : Outcome) (localRetryDelay delay : ℕ) : Prop :=
  match outcome with
  | .failed _ => delay = localRetryDelay
  | .response response => retryDelay response localRetryDelay = some delay

/-- What an iteration may do, with a budget that is still open when it sends. -/
inductive Allowed (retryable refreshes : Bool) (succeeds : ℕ → Bool) (maxRetries overallTimeout : ℕ)
    (s : LoopState) (r : Round) : Step → Prop
  | refused (error : Error) :
      Allowed retryable refreshes succeeds maxRetries overallTimeout s r (.done [] (.error error))
  | ended (budget : r.sentAt < overallTimeout) :
      Allowed retryable refreshes succeeds maxRetries overallTimeout s r
        (.done [attempt overallTimeout r] (verdictOn succeeds r.outcome))
  | late (budget : r.sentAt < overallTimeout) (reading delay : ℕ)
      (hdelay : DelayAfter r.outcome r.localRetryDelay delay) :
      Allowed retryable refreshes succeeds maxRetries overallTimeout s r
        (.done [attempt overallTimeout r, .checked reading delay] (verdictOn succeeds r.outcome))
  | discardedLate (budget : r.sentAt < overallTimeout) (reading discard delay : ℕ)
      (hdelay : DelayAfter r.outcome r.localRetryDelay delay) :
      Allowed retryable refreshes succeeds maxRetries overallTimeout s r
        (.done [attempt overallTimeout r, .checked reading delay, .checked discard delay]
          (verdictOn succeeds r.outcome))
  | refreshed (budget : r.sentAt < overallTimeout) (response : Response)
      (houtcome : r.outcome = .response response) (hstatus : response.status = unauthorized)
      (hrefreshes : refreshes = true) (hfirst : s.authRefreshed = false) :
      Allowed retryable refreshes succeeds maxRetries overallTimeout s r
        (.again [attempt overallTimeout r, .refreshed] { s with authRefreshed := true })
  | retried (budget : r.sentAt < overallTimeout) (hretryable : retryable = true)
      (hretries : s.retries < maxRetries)
      (hfailed : ∀ response, r.outcome = .response response → succeeds response.status = false)
      (reading delay : ℕ)
      (hdelay : DelayAfter r.outcome r.localRetryDelay delay) (hwait : reading + delay < overallTimeout) :
      Allowed retryable refreshes succeeds maxRetries overallTimeout s r
        (.again [attempt overallTimeout r, .checked reading delay, .slept delay]
          { s with retries := s.retries + 1 })
  | discardedRetried (budget : r.sentAt < overallTimeout) (hretryable : retryable = true)
      (hretries : s.retries < maxRetries)
      (hfailed : ∀ response, r.outcome = .response response → succeeds response.status = false)
      (reading discard delay : ℕ)
      (hdelay : DelayAfter r.outcome r.localRetryDelay delay) (hwait : reading + delay < overallTimeout) :
      Allowed retryable refreshes succeeds maxRetries overallTimeout s r
        (.again [attempt overallTimeout r, .checked reading delay, .checked discard delay, .slept delay]
          { s with retries := s.retries + 1 })

variable {retryable refreshes : Bool} {succeeds : ℕ → Bool} {maxRetries overallTimeout : ℕ}
  {s : LoopState} {r : Round}

theorem settle_allowed {generation : Option UInt64} (budget : r.sentAt < overallTimeout)
    (hgeneration : generation.isSome → refreshes = true) :
    Allowed retryable refreshes succeeds maxRetries overallTimeout s r
      (settle retryable succeeds maxRetries overallTimeout generation (overallTimeout - r.sentAt) s r) := by
  have hended : Allowed retryable refreshes succeeds maxRetries overallTimeout s r _ := .ended budget
  rw [settle]
  cases houtcome : r.outcome with
  | failed error =>
      have hdelay : DelayAfter r.outcome r.localRetryDelay r.localRetryDelay := by
        simp [DelayAfter, houtcome]
      by_cases hrepeat : (retryable && s.retries < maxRetries
          && (error.isConnect || error.isTimeout)) = true
      · simp only [hrepeat, if_true]
        simp only [Bool.and_eq_true, decide_eq_true_eq] at hrepeat
        cases hwait : canWait r.waitReading r.localRetryDelay overallTimeout with
        | false =>
            simpa [attempt, houtcome, verdictOn] using
              Allowed.late budget r.waitReading r.localRetryDelay hdelay
        | true =>
            simpa [attempt, houtcome] using
              Allowed.retried budget hrepeat.1.1 hrepeat.1.2 (by simp [houtcome]) r.waitReading
                r.localRetryDelay hdelay (lt_of_canWait hwait)
      · simpa [hrepeat, attempt, houtcome, verdictOn] using hended
  | response response =>
      by_cases hrefresh : (response.status = unauthorized && generation.isSome
          && !s.authRefreshed) = true
      · simp only [hrefresh, if_true]
        simp only [Bool.and_eq_true, decide_eq_true_eq, Bool.not_eq_true'] at hrefresh
        simpa [attempt, houtcome] using
          Allowed.refreshed budget response houtcome hrefresh.1.1 (hgeneration hrefresh.1.2) hrefresh.2
      simp only [hrefresh]
      by_cases hsuccess : succeeds response.status = true
      · simpa [hsuccess, attempt, houtcome, verdictOn] using hended
      by_cases hrepeat : (retryable && s.retries < maxRetries && shouldRetryResponse response) = true
      · simp only [hsuccess, hrepeat]
        simp only [Bool.and_eq_true, decide_eq_true_eq] at hrepeat
        cases hretry : retryDelay response r.localRetryDelay with
        | none => simpa [hsuccess, attempt, houtcome, verdictOn] using hended
        | some delay =>
            have hdelay : DelayAfter r.outcome r.localRetryDelay delay := by
              simpa [DelayAfter, houtcome] using hretry
            cases hwait : canWait r.waitReading delay overallTimeout with
            | false =>
                have hlate : Allowed retryable refreshes succeeds maxRetries overallTimeout s r _ :=
                  .late budget r.waitReading delay hdelay
                simpa [hwait, hsuccess, attempt, houtcome, verdictOn] using hlate
            | true =>
                simpa [hwait, attempt, houtcome] using
                  Allowed.retried budget hrepeat.1.1 hrepeat.1.2 (by simpa [houtcome] using hsuccess)
                    r.waitReading delay hdelay (lt_of_canWait hwait)
      · simpa [hsuccess, hrepeat, attempt, houtcome, verdictOn] using hended

theorem discarding_allowed {iteration : Step}
    (h : Allowed retryable refreshes succeeds maxRetries overallTimeout s r iteration) :
    Allowed retryable refreshes succeeds maxRetries overallTimeout s r
      (discarding overallTimeout r iteration) := by
  cases h with
  | refused error => exact .refused error
  | ended budget => exact .ended budget
  | late budget reading delay hdelay => exact .late budget reading delay hdelay
  | discardedLate budget reading discard delay hdelay =>
      exact .discardedLate budget reading discard delay hdelay
  | refreshed budget response houtcome hstatus hrefreshes hfirst =>
      have h : Allowed retryable refreshes succeeds maxRetries overallTimeout s r _ :=
        .refreshed budget response houtcome hstatus hrefreshes hfirst
      simpa [discarding, attempt, houtcome] using h
  | retried budget hretryable hretries hfailed reading delay hdelay hwait =>
      cases houtcome : r.outcome with
      | failed error =>
          have h : Allowed retryable refreshes succeeds maxRetries overallTimeout s r _ :=
            .retried budget hretryable hretries hfailed reading delay hdelay hwait
          simpa [discarding, attempt, houtcome] using h
      | response response =>
          have hlate : Allowed retryable refreshes succeeds maxRetries overallTimeout s r _ :=
            .discardedLate budget reading r.discardReading delay hdelay
          have hretried : Allowed retryable refreshes succeeds maxRetries overallTimeout s r _ :=
            .discardedRetried budget hretryable hretries hfailed reading r.discardReading delay hdelay
              hwait
          simp only [verdictOn, attempt, houtcome, hfailed response houtcome] at hlate hretried
          simp only [discarding, attempt, houtcome]
          split
          · exact hlate
          · exact hretried
  | discardedRetried budget hretryable hretries hfailed reading discard delay hdelay hwait =>
      have h : Allowed retryable refreshes succeeds maxRetries overallTimeout s r _ :=
        .discardedRetried budget hretryable hretries hfailed reading discard delay hdelay hwait
      cases houtcome : r.outcome <;> simpa [discarding, attempt, houtcome] using h

end Iterations

section Lanes

variable {client : Transport} {s : LoopState} {r : Round} {generation : Option UInt64} {remaining : ℕ}

/-- The budget comes from the reading at which the authorization is there. -/
theorem authorizationWithBudget_ok
    (h : client.auth.authorizationWithBudget r client.overallTimeout = .ok (generation, remaining)) :
    r.sentAt < client.overallTimeout ∧ remaining = client.overallTimeout - r.sentAt ∧
      (generation.isSome → client.auth = .workload) := by
  rw [AuthProvider.authorizationWithBudget] at h
  cases hbefore : remainingTime r.beforeAuthorization client.overallTimeout with
  | none => simp [hbefore] at h
  | some before =>
      simp only [hbefore] at h
      cases hanswer : client.auth.authorization r with
      | elapsed => simp [hanswer] at h
      | ready answer =>
          cases answer with
          | failed => simp [hanswer] at h
          | lease lease =>
              simp only [hanswer] at h
              cases hafter : remainingTime r.sentAt client.overallTimeout with
              | none => simp [hafter] at h
              | some left =>
                  simp only [hafter, Except.ok.injEq, Prod.mk.injEq] at h
                  obtain ⟨rfl, rfl⟩ := h
                  obtain ⟨hopen, rfl⟩ := remainingTime_eq_some.mp hafter
                  refine ⟨hopen, rfl, ?_⟩
                  intro hsome
                  cases hauth : client.auth with
                  | apiKey =>
                      rw [hauth, AuthProvider.authorization] at hanswer
                      cases hanswer
                      cases hsome
                  | workload => rfl

/-- What holds of every refusal, and of the treatment of an attempt inside the budget, holds of an
iteration that authenticates. -/
theorem authorized_allowed {retryable : Bool} {succeeds : ℕ → Bool} {maxRetries : ℕ}
    (attempted : Option UInt64 → ℕ → Step)
    (h : ∀ generation, r.sentAt < client.overallTimeout →
      (generation.isSome → decide (client.auth = .workload) = true) →
      Allowed retryable (client.auth = .workload) succeeds maxRetries client.overallTimeout s r
        (attempted generation (client.overallTimeout - r.sentAt))) :
    Allowed retryable (client.auth = .workload) succeeds maxRetries client.overallTimeout s r
      (match client.auth.authorizationWithBudget r client.overallTimeout with
      | .error error => .done [] (.error error)
      | .ok (generation, remaining) =>
          if !r.built then .done [] (.error .request) else attempted generation remaining) := by
  cases hauth : client.auth.authorizationWithBudget r client.overallTimeout with
  | error error => exact .refused error
  | ok authorized =>
      obtain ⟨generation, remaining⟩ := authorized
      obtain ⟨hopen, rfl, hworkload⟩ := authorizationWithBudget_ok hauth
      cases hbuilt : r.built with
      | false => exact .refused .request
      | true => exact h generation hopen (fun hsome => decide_eq_true (hworkload hsome))

/-- Every iteration of every lane does what an iteration may do. -/
theorem Lane.step_allowed (lane : Lane) (client : Transport) (s : LoopState) (r : Round) :
    Allowed (retryableOperation lane.retryClass client.retryPolicy) (lane.refreshes client)
      lane.succeeds client.retryPolicy.maxRetries client.overallTimeout s r (lane.step client s r) := by
  have hjson : Allowed (retryableOperation .replayable client.retryPolicy) (client.auth = .workload)
      isSuccessStatus client.retryPolicy.maxRetries client.overallTimeout s r
      (sendReplayableJson client s r) := by
    rw [sendReplayableJson_eq]
    exact authorized_allowed _ (fun generation hopen hworkload => settle_allowed hopen hworkload)
  cases lane with
  | json operation =>
      rw [step, sendWithStaticHeader_eq]
      exact authorized_allowed _
        (fun generation hopen hworkload => discarding_allowed (settle_allowed hopen hworkload))
  | replayableForm =>
      rw [step, sendReplayableForm_eq]
      cases remainingTime r.beforeForm client.overallTimeout with
      | none => exact .refused .deadlineExceeded
      | some before =>
          cases r.form with
          | elapsed => exact .refused .deadlineExceeded
          | ready built =>
              cases built with
              | false => exact .refused .form
              | true => exact hjson
  | replayableJson => exact hjson
  | download =>
      rw [step, sendDownloadWithQuery_eq]
      exact authorized_allowed _ (fun generation hopen hworkload => settle_allowed hopen hworkload)
  | admin operation =>
      rw [step, adminSend_eq]
      cases hremaining : remainingTime r.sentAt client.overallTimeout with
      | none => exact .refused .deadlineExceeded
      | some remaining =>
          obtain ⟨hopen, rfl⟩ := remainingTime_eq_some.mp hremaining
          exact settle_allowed hopen (by simp)

end Lanes

section Runs

@[simp] def Event.isSent : Event → Bool
  | .sent _ _ _ => true
  | .checked _ _ => false
  | .slept _ => false
  | .refreshed => false

@[simp] def Event.isRefreshed : Event → Bool
  | .sent _ _ _ => false
  | .checked _ _ => false
  | .slept _ => false
  | .refreshed => true

abbrev LaneRun : Type := Run Event (Except Error Response)

def sends (run : LaneRun) : ℕ := run.log.countP Event.isSent

def refreshes (run : LaneRun) : ℕ := run.log.countP Event.isRefreshed

/-- What the log has in front of a sleep: an attempt, whose response asks for no other delay, and a check
of this delay that passes. -/
def CheckedBefore (overallTimeout delay : ℕ) (before : List Event) : Prop :=
  ∃ earlier timeout sentAt outcome elapsed later,
    before = earlier ++ .sent timeout sentAt outcome :: .checked elapsed delay :: later ∧
      (∀ e ∈ later, ∃ elapsed, e = .checked elapsed delay) ∧ elapsed + delay < overallTimeout ∧
      ∀ response, outcome = .response response →
        response.serverDelay = .valid delay ∨ response.serverDelay = .absent

/-- What a run of a lane never breaks. -/
structure SafeRun (retryable refreshable : Bool) (succeeds : ℕ → Bool) (maxRetries overallTimeout : ℕ)
    (run : LaneRun) : Prop where
  sends_le : sends run ≤ 1 + maxRetries + refreshes run
  sends_le_of_not_retryable : retryable = false → sends run ≤ 1 + refreshes run
  refreshes_le : refreshes run ≤ 1
  /-- Only a 401 is answered with a new credential, and only where there is one to be had. -/
  refreshed : ∀ before after, run.log = before ++ .refreshed :: after →
    refreshable = true ∧ ∃ earlier timeout sentAt response,
      before = earlier ++ [.sent timeout sentAt (.response response)] ∧ response.status = unauthorized
  slept : ∀ before delay after, run.log = before ++ .slept delay :: after →
    CheckedBefore overallTimeout delay before
  /-- A response that asks for too long a delay is the last one, unless its 401 is refreshed. -/
  tooLong : ∀ before timeout sentAt response after,
    run.log = before ++ .sent timeout sentAt (.response response) :: after →
    response.serverDelay = .tooLong →
    (after = [] ∧ run.verdict = some (verdictOn succeeds (.response response))) ∨
      (response.status = unauthorized ∧ ∃ later, after = .refreshed :: later)

variable {retryable refreshable : Bool} {succeeds : ℕ → Bool} {maxRetries overallTimeout : ℕ}
  {step : LoopState → Round → Step}

/-- A loop whose iterations are allowed ones. -/
def AllowedLoop (retryable refreshable : Bool) (succeeds : ℕ → Bool) (maxRetries overallTimeout : ℕ)
    (step : LoopState → Round → Step) : Prop :=
  ∀ s r, Allowed retryable refreshable succeeds maxRetries overallTimeout s r (step s r)

@[simp] theorem sends_after (run : LaneRun) (events : List Event) :
    sends (run.after events) = events.countP Event.isSent + sends run := List.countP_append

@[simp] theorem refreshes_after (run : LaneRun) (events : List Event) :
    refreshes (run.after events) = events.countP Event.isRefreshed + refreshes run := List.countP_append

theorem sends_drive_le (h : AllowedLoop retryable refreshable succeeds maxRetries overallTimeout step)
    (s : LoopState) (rounds : List Round) :
    sends (drive step s rounds) ≤
      1 + (if retryable then maxRetries - s.retries else 0) + refreshes (drive step s rounds) := by
  refine drive_induction (motive := fun s run => sends run ≤
    1 + (if retryable then maxRetries - s.retries else 0) + refreshes run) ?_ ?_ ?_ s rounds
  · intro s
    simp [sends]
  · intro s r events next run hstep hrun
    have hshape := hstep ▸ h s r
    cases hshape with
    | refreshed =>
        simp [List.countP_cons, attempt] at hrun ⊢
        omega
    | retried _ hretryable hretries =>
        simp [List.countP_cons, attempt, hretryable] at hrun ⊢
        omega
    | discardedRetried _ hretryable hretries =>
        simp [List.countP_cons, attempt, hretryable] at hrun ⊢
        omega
  · intro s r events verdict hstep
    have hshape := hstep ▸ h s r
    cases hshape <;> simp [sends, refreshes, List.countP_cons, attempt]

theorem refreshes_drive_le (h : AllowedLoop retryable refreshable succeeds maxRetries overallTimeout step)
    (s : LoopState) (rounds : List Round) :
    refreshes (drive step s rounds) ≤ if s.authRefreshed then 0 else 1 := by
  refine countP_log_le (fun _ => True) (fun s => if s.authRefreshed then 0 else 1) ?_ ?_ s fun _ _ => trivial
  · intro s r events next _ hstep
    have hshape := hstep ▸ h s r
    cases hshape with
    | refreshed _ _ _ _ _ hfirst => simp [List.countP_cons, attempt, hfirst]
    | retried => simp [attempt]
    | discardedRetried => simp [attempt]
  · intro s r events verdict _ hstep
    have hshape := hstep ▸ h s r
    cases hshape <;> simp [attempt]

/-- What an event of a log asks of the events in front of it. -/
def Preceded (refreshable : Bool) (overallTimeout : ℕ) (before : List Event) : Event → Prop
  | .refreshed => refreshable = true ∧ ∃ earlier timeout sentAt response,
      before = earlier ++ [.sent timeout sentAt (.response response)] ∧ response.status = unauthorized
  | .slept delay => CheckedBefore overallTimeout delay before
  | _ => True

theorem Preceded.grows {earlier before : List Event} {e : Event}
    (h : Preceded refreshable overallTimeout before e) :
    Preceded refreshable overallTimeout (earlier ++ before) e := by
  cases e with
  | sent timeout sentAt outcome => trivial
  | checked elapsed delay => trivial
  | slept delay =>
      obtain ⟨first, timeout, sentAt, outcome, elapsed, later, rfl, hrest⟩ := h
      exact ⟨earlier ++ first, timeout, sentAt, outcome, elapsed, later, by simp, hrest⟩
  | refreshed =>
      obtain ⟨hrefreshable, first, timeout, sentAt, response, rfl, hstatus⟩ := h
      exact ⟨hrefreshable, earlier ++ first, timeout, sentAt, response, by simp, hstatus⟩

/-- A delay is the one that the response asks for, if it asks for any. -/
theorem serverDelay_of_delayAfter {outcome : Outcome} {localRetryDelay delay : ℕ}
    (h : DelayAfter outcome localRetryDelay delay) {response : Response}
    (houtcome : outcome = .response response) :
    response.serverDelay = .valid delay ∨ response.serverDelay = .absent := by
  subst houtcome
  rw [DelayAfter, retryDelay] at h
  cases hserver : response.serverDelay with
  | absent => exact .inr rfl
  | valid server =>
      simp only [hserver, Option.some.injEq] at h
      exact .inl (congrArg ServerDelay.valid h)
  | tooLong => simp [hserver] at h

theorem Allowed.preceded {s : LoopState} {r : Round} {iteration : Step}
    (h : Allowed retryable refreshable succeeds maxRetries overallTimeout s r iteration) :
    ∀ before e after, iteration.events = before ++ e :: after →
      Preceded refreshable overallTimeout before e := by
  cases h with
  | refused => exact forall_split_nil
  | ended => exact forall_split_cons.mpr ⟨trivial, forall_split_nil⟩
  | late =>
      exact forall_split_cons.mpr ⟨trivial, forall_split_cons.mpr ⟨trivial, forall_split_nil⟩⟩
  | discardedLate =>
      exact forall_split_cons.mpr ⟨trivial, forall_split_cons.mpr ⟨trivial,
        forall_split_cons.mpr ⟨trivial, forall_split_nil⟩⟩⟩
  | refreshed budget response houtcome hstatus hrefreshes hfirst =>
      refine forall_split_cons.mpr ⟨trivial, forall_split_cons.mpr ⟨?_, forall_split_nil⟩⟩
      exact ⟨hrefreshes, [], overallTimeout - r.sentAt, r.sentAt, response,
        by simp [attempt, houtcome], hstatus⟩
  | retried budget hretryable hretries hfailed reading delay hdelay hwait =>
      refine forall_split_cons.mpr ⟨trivial, forall_split_cons.mpr ⟨trivial,
        forall_split_cons.mpr ⟨?_, forall_split_nil⟩⟩⟩
      exact ⟨[], _, _, r.outcome, reading, [], rfl, by simp, hwait,
        fun response => serverDelay_of_delayAfter hdelay⟩
  | discardedRetried budget hretryable hretries hfailed reading discard delay hdelay hwait =>
      refine forall_split_cons.mpr ⟨trivial, forall_split_cons.mpr ⟨trivial,
        forall_split_cons.mpr ⟨trivial, forall_split_cons.mpr ⟨?_, forall_split_nil⟩⟩⟩⟩
      exact ⟨[], _, _, r.outcome, reading, [.checked discard delay], rfl, by simp, hwait,
        fun response => serverDelay_of_delayAfter hdelay⟩

/-- What follows on a response that asks for too long a delay. -/
def Answered (succeeds : ℕ → Bool) (e : Event) (after : List Event)
    (verdict : Option (Except Error Response)) : Prop :=
  ∀ timeout sentAt response, e = .sent timeout sentAt (.response response) →
    response.serverDelay = .tooLong →
    (after = [] ∧ verdict = some (verdictOn succeeds (.response response))) ∨
      (response.status = unauthorized ∧ ∃ later, after = .refreshed :: later)

theorem answered_of_delayAfter {r : Round} {delay : ℕ}
    (hdelay : DelayAfter r.outcome r.localRetryDelay delay) (after : List Event)
    (verdict : Option (Except Error Response)) :
    Answered succeeds (attempt overallTimeout r) after verdict := by
  intro timeout sentAt response he hlong
  have houtcome : r.outcome = .response response := (Event.sent.inj he).2.2
  obtain hvalid | habsent := serverDelay_of_delayAfter hdelay houtcome
  · rw [hlong] at hvalid
    cases hvalid
  · rw [hlong] at habsent
    cases habsent

theorem answered_checked {elapsed delay : ℕ} (after : List Event)
    (verdict : Option (Except Error Response)) :
    Answered succeeds (.checked elapsed delay) after verdict := by
  intro timeout sentAt response he
  cases he

theorem answered_slept {delay : ℕ} (after : List Event) (verdict : Option (Except Error Response)) :
    Answered succeeds (.slept delay) after verdict := by
  intro timeout sentAt response he
  cases he

theorem Allowed.answered_again {s next : LoopState} {r : Round} {events : List Event}
    (h : Allowed retryable refreshable succeeds maxRetries overallTimeout s r (.again events next)) :
    ∀ before e after, events = before ++ e :: after →
      ∀ log verdict, Answered succeeds e (after ++ log) verdict := by
  cases h with
  | refreshed budget response houtcome hstatus hrefreshes hfirst =>
      refine forall_split_cons.mpr ⟨?_, forall_split_cons.mpr ⟨?_, forall_split_nil⟩⟩
      · intro log verdict timeout sentAt answer he hlong
        have hanswer : Outcome.response response = .response answer :=
          houtcome.symm.trans (Event.sent.inj he).2.2
        cases hanswer
        exact .inr ⟨hstatus, log, rfl⟩
      · intro log verdict timeout sentAt answer he
        cases he
  | retried budget hretryable hretries hfailed reading delay hdelay hwait =>
      exact forall_split_cons.mpr ⟨fun log verdict => answered_of_delayAfter hdelay _ _,
        forall_split_cons.mpr ⟨fun log verdict => answered_checked _ _,
          forall_split_cons.mpr ⟨fun log verdict => answered_slept _ _, forall_split_nil⟩⟩⟩
  | discardedRetried budget hretryable hretries hfailed reading discard delay hdelay hwait =>
      exact forall_split_cons.mpr ⟨fun log verdict => answered_of_delayAfter hdelay _ _,
        forall_split_cons.mpr ⟨fun log verdict => answered_checked _ _,
          forall_split_cons.mpr ⟨fun log verdict => answered_checked _ _,
            forall_split_cons.mpr ⟨fun log verdict => answered_slept _ _, forall_split_nil⟩⟩⟩⟩

theorem Allowed.answered_done {s : LoopState} {r : Round} {events : List Event}
    {verdict : Except Error Response}
    (h : Allowed retryable refreshable succeeds maxRetries overallTimeout s r (.done events verdict)) :
    ∀ before e after, events = before ++ e :: after → Answered succeeds e after (some verdict) := by
  cases h with
  | refused => exact forall_split_nil
  | ended =>
      refine forall_split_cons.mpr ⟨?_, forall_split_nil⟩
      intro timeout sentAt response he hlong
      have houtcome : r.outcome = .response response := (Event.sent.inj he).2.2
      exact .inl ⟨rfl, by rw [houtcome]⟩
  | late budget reading delay hdelay =>
      exact forall_split_cons.mpr ⟨answered_of_delayAfter hdelay _ _,
        forall_split_cons.mpr ⟨answered_checked _ _, forall_split_nil⟩⟩
  | discardedLate budget reading discard delay hdelay =>
      exact forall_split_cons.mpr ⟨answered_of_delayAfter hdelay _ _,
        forall_split_cons.mpr ⟨answered_checked _ _,
          forall_split_cons.mpr ⟨answered_checked _ _, forall_split_nil⟩⟩⟩

theorem AllowedLoop.safeRun (h : AllowedLoop retryable refreshable succeeds maxRetries overallTimeout step)
    (rounds : List Round) :
    SafeRun retryable refreshable succeeds maxRetries overallTimeout (drive step .start rounds) := by
  have hsends := sends_drive_le h .start rounds
  have hpreceded := forall_split_log (p := Preceded refreshable overallTimeout)
    (fun earlier before e => Preceded.grows) (fun s r => (h s r).preceded) .start rounds
  have hanswered := forall_split_run (p := Answered succeeds)
    (fun s r events next (hstep : step s r = _) => (hstep ▸ h s r).answered_again)
    (fun s r events verdict hstep => (hstep ▸ h s r).answered_done) .start rounds
  refine ⟨?_, ?_, refreshes_drive_le h .start rounds, ?_, ?_, ?_⟩
  · simp only [LoopState.start] at hsends ⊢
    split at hsends <;> omega
  · intro hretryable
    simpa [hretryable] using hsends
  · intro before after hlog
    exact hpreceded before .refreshed after hlog
  · intro before delay after hlog
    exact hpreceded before (.slept delay) after hlog
  · intro before timeout sentAt response after hlog
    exact hanswered before _ after hlog timeout sentAt response rfl

theorem log_sendOneShotForm (client : Transport) (r : Round) :
    (sendOneShotForm client r).log =
      match client.auth.authorizationWithBudget r client.overallTimeout with
      | .error _ => []
      | .ok (_, remaining) => if r.built then [.sent remaining r.sentAt r.outcome] else [] := by
  rw [sendOneShotForm]
  cases client.auth.authorizationWithBudget r client.overallTimeout with
  | error error => rfl
  | ok authorized =>
      cases r.built with
      | false => rfl
      | true =>
          cases houtcome : r.outcome with
          | failed error => simp
          | response response => cases hsuccess : isSuccessStatus response.status <;> simp [hsuccess]

/-- The one-shot lane sends when the authorization is there within the budget and the request is built,
and then once. -/
theorem sends_sendOneShotForm (client : Transport) (r : Round) :
    sends (sendOneShotForm client r) ≤ 1 ∧
      (sends (sendOneShotForm client r) = 1 ↔
        (∃ authorized, client.auth.authorizationWithBudget r client.overallTimeout = .ok authorized) ∧
          r.built = true) := by
  rw [sends, log_sendOneShotForm]
  cases client.auth.authorizationWithBudget r client.overallTimeout with
  | error error => simp
  | ok authorized => cases r.built <;> simp

/-- Every run of a loop that repeats requests is safe, and the one-shot lane sends at most once. -/
theorem retryLoops_safe :
    (∀ (lane : Lane) (client : Transport) (rounds : List Round),
      SafeRun (retryableOperation lane.retryClass client.retryPolicy) (lane.refreshes client)
        lane.succeeds client.retryPolicy.maxRetries client.overallTimeout (lane.run client rounds)) ∧
    ∀ (client : Transport) (r : Round),
      sends (sendOneShotForm client r) ≤ 1 ∧
        (sends (sendOneShotForm client r) = 1 ↔
          (∃ authorized, client.auth.authorizationWithBudget r client.overallTimeout = .ok authorized) ∧
            r.built = true) :=
  ⟨fun lane client rounds => AllowedLoop.safeRun (lane.step_allowed client) rounds,
    sends_sendOneShotForm⟩

/-- A round in which the workload credential has no token to give. -/
def tokenRefused : Round where
  beforeForm := 0
  form := .ready true
  beforeAuthorization := 0
  token := .ready .failed
  sentAt := 0
  built := true
  outcome := .failed ⟨false, false⟩
  localRetryDelay := 0
  waitReading := 0
  jsonBodyEnabled := false
  discardReading := 0

theorem sendOneShotForm_tokenRefused :
    sends (sendOneShotForm ⟨.workload, ⟨2, true⟩, 600⟩ tokenRefused) = 0 := by
  decide

/-- A lane whose surroundings keep answering comes to its end. -/
theorem Lane.run_ends (lane : Lane) (client : Transport) (rounds : List Round)
    (h : client.retryPolicy.maxRetries + 1 < rounds.length) : (lane.run client rounds).verdict.isSome := by
  refine verdict_isSome_of_measure (fun _ => True)
    (fun s => client.retryPolicy.maxRetries - s.retries + if s.authRefreshed then 0 else 1) ?_ (fun _ _ => trivial) ?_
  · intro s r events next _ hstep
    have hshape := hstep ▸ lane.step_allowed client s r
    cases hshape with
    | refreshed budget response houtcome hstatus hrefreshes hfirst => simp [hfirst]
    | retried budget hretryable hretries =>
        simp only
        omega
    | discardedRetried budget hretryable hretries =>
        simp only
        omega
  · simpa [LoopState.start] using h

end Runs

end OpenaiRs.Retry
