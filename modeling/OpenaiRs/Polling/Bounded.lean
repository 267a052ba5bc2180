import OpenaiRs.Polling.Poll
import Mathlib.Data.List.Chain

/-!
# Polling ends and does not spin

A pause of positive length lies between two fetches as long as no response asks for a pause of zero
milliseconds. A server that sends `openai-poll-after-ms: 0` to a poller without an interval is polled without a
pause.
-/

namespace OpenaiRs.Polling

open Rounds Rust

variable {T E : Type}

section Properties

namespace Event

def isFetch : Event T E → Bool
  | .fetch _ _ => true
  | _ => false

/-- In front of a fetch that is not the first one stands a pause. -/
def Spaced (earlier later : Event T E) : Prop :=
  later.isFetch = true → ∃ startedAt length, earlier = .sleep startedAt length ∧ 0 < length

/-- A fetch starts before the deadline and is given at most what is left; a sleep ends by the deadline. -/
def OnBudget (timeout : ℕ) : Event T E → Prop
  | .fetch startedAt budget => startedAt < timeout ∧ startedAt + budget ≤ timeout
  | .sleep startedAt length => startedAt + length ≤ timeout
  | _ => True

end Event

/-- The responses of a log, in their order. -/
def responses (log : List (Event T E)) : List (ApiResponse T) :=
  log.filterMap fun
    | .received response => some response
    | _ => none

/-- The errors of the fetches that failed. -/
def errors (log : List (Event T E)) : List E :=
  log.filterMap fun
    | .failed error => some error
    | _ => none

variable (poller : Poller T)

/-- What a verdict says about the log, where `status` is the last status before it. -/
def Justified (status : Option String) (log : List (Event T E)) : Verdict T E → Prop
  | .ok response => errors log = [] ∧ ∃ earlier, responses log = earlier ++ [response] ∧
      poller.terminal response.body = true ∧ ∀ other ∈ earlier, poller.terminal other.body = false
  | .error error => (∀ other ∈ responses log, poller.terminal other.body = false) ∧
      match error with
      | .invalidConfiguration => False
      | .deadlineExceeded lastStatus => errors log = [] ∧
          lastStatus = (((responses log).getLast?.map fun other => poller.status other.body).or status)
      | .cancelled => errors log = [] ∧ poller.cancellable = true
      | .client error => errors log = [error]

/-- The first rounds of surroundings that answer forever. -/
def firstRounds (surroundings : ℕ → Round T E) (n : ℕ) : List (Round T E) := (List.range n).map surroundings

/-- The run ends after finitely many fetches with pauses between them, keeps to its budget, and its verdict is
what it has seen. -/
structure PollsWell (start : ℕ) (surroundings : ℕ → Round T E) : Prop where
  ends : ∃ n, (poller.pollUntil start (firstRounds surroundings n)).verdict.isSome
  few : ∃ bound, ∀ n, (poller.pollUntil start (firstRounds surroundings n)).log.countP Event.isFetch ≤ bound
  spaced : ∀ n, (poller.pollUntil start (firstRounds surroundings n)).log.IsChain Event.Spaced
  onBudget : ∀ n, ∀ e ∈ (poller.pollUntil start (firstRounds surroundings n)).log,
    e.OnBudget poller.timeout.nanos
  justified : ∀ n verdict, (poller.pollUntil start (firstRounds surroundings n)).verdict = some verdict →
    Justified poller none (poller.pollUntil start (firstRounds surroundings n)).log verdict

end Properties

section Steps

variable {poller : Poller T} {s next : State} {r : Round T E} {events : List (Event T E)} {verdict : Verdict T E}

/-- What a poller asks of a round: a response behind which it goes on comes with a pause. -/
def Paced (poller : Poller T) (r : Round T E) : Prop :=
  ∀ response, r.fetch = .received response → poller.terminal response.body = false →
    0 < (poller.pacing response).nanos

/-- The rounds that a run reads. -/
def Poller.readRounds (poller : Poller T) (start : ℕ) (rounds : List (Round T E)) : List (Round T E) :=
  taken poller.iteration ⟨start, none⟩ rounds

theorem onBudget_iteration (poller : Poller T) (s : State) (r : Round T E) :
    ∀ e ∈ (poller.iteration s r).events, e.OnBudget poller.timeout.nanos := by
  have hiterates := iterates poller s r
  generalize poller.iteration s r = iteration at hiterates
  intro e he
  cases hiterates <;> simp only [Iteration.events, List.mem_cons, List.not_mem_nil, or_false] at he
  all_goals
    rcases he with rfl | rfl | rfl <;> simp only [Event.OnBudget]
    all_goals omega

/-- An iteration that goes on spends time, and not more than is left. -/
theorem elapsed_lt_of_again (hr : Paced poller r) (h : poller.iteration s r = .again events next) :
    s.elapsed < next.elapsed ∧ s.elapsed < poller.timeout.nanos := by
  have hiterates := h ▸ iterates poller s r
  cases hiterates with
  | again response hfetch hleft hgoing =>
      have hpause := hr response hfetch hgoing
      constructor
      · simp only
        omega
      · omega

theorem measure_lt_of_again (hr : Paced poller r) (h : poller.iteration s r = .again events next) :
    poller.timeout.nanos - next.elapsed < poller.timeout.nanos - s.elapsed := by
  obtain ⟨hlater, hopen⟩ := elapsed_lt_of_again hr h
  omega

theorem countP_again (h : poller.iteration s r = .again events next) : events.countP Event.isFetch = 1 := by
  have hiterates := h ▸ iterates poller s r
  cases hiterates with
  | again => rfl

theorem countP_done (h : poller.iteration s r = .done events verdict) :
    events.countP Event.isFetch ≤ poller.timeout.nanos - s.elapsed := by
  have hiterates := h ▸ iterates poller s r
  cases hiterates <;> simp [List.countP_cons, Event.isFetch] <;> omega

/-- A pause of positive length ends an iteration that goes on. -/
theorem spaced_again (hr : Paced poller r) (h : poller.iteration s r = .again events next) :
    events.IsChain Event.Spaced ∧
      ∀ e ∈ events.getLast?, ∃ startedAt length, e = Event.sleep startedAt length ∧ 0 < length := by
  have hiterates := h ▸ iterates poller s r
  cases hiterates with
  | again response hfetch hleft hgoing =>
      have hpause := hr response hfetch hgoing
      constructor
      · simp [Event.Spaced, Event.isFetch]
      · intro e he
        obtain rfl := Option.some.inj he
        exact ⟨_, _, rfl, by omega⟩

theorem spaced_done (h : poller.iteration s r = .done events verdict) : events.IsChain Event.Spaced := by
  have hiterates := h ▸ iterates poller s r
  cases hiterates <;> simp [Event.Spaced, Event.isFetch]

/-- A response that is not terminal goes in front of what the rest of the run has seen. -/
theorem justified_again {log : List (Event T E)}
    (h : poller.iteration s r = .again events next) (hlater : Justified poller next.lastStatus log verdict) :
    Justified poller s.lastStatus (events ++ log) verdict := by
  have hiterates := h ▸ iterates poller s r
  cases hiterates with
  | again response hfetch hleft hgoing =>
      cases verdict with
      | ok last =>
          obtain ⟨herrors, earlier, hresponses, hterminal, hearlier⟩ := hlater
          refine ⟨herrors, response :: earlier, ?_, hterminal, ?_⟩
          · exact congrArg (response :: ·) hresponses
          · exact List.forall_mem_cons.mpr ⟨hgoing, hearlier⟩
      | error error =>
          obtain ⟨hresponses, herror⟩ := hlater
          refine ⟨List.forall_mem_cons.mpr ⟨hgoing, hresponses⟩, ?_⟩
          cases error with
          | invalidConfiguration => exact herror
          | deadlineExceeded lastStatus =>
              obtain ⟨herrors, hstatus⟩ := herror
              refine ⟨herrors, hstatus.trans ?_⟩
              change _ = ((response :: responses log).getLast?.map fun other => poller.status other.body).or s.lastStatus
              rw [List.getLast?_cons]
              cases (responses log).getLast? <;> rfl
          | cancelled => exact herror
          | client error => exact herror

theorem justified_done (h : poller.iteration s r = .done events verdict) :
    Justified poller s.lastStatus events verdict := by
  have hiterates := h ▸ iterates poller s r
  cases hiterates with
  | cancelled hcancellable => exact ⟨List.forall_mem_nil _, rfl, hcancellable⟩
  | late => exact ⟨List.forall_mem_nil _, rfl, rfl⟩
  | cancelledFetch hcancellable => exact ⟨List.forall_mem_nil _, rfl, hcancellable⟩
  | timedOut => exact ⟨List.forall_mem_nil _, rfl, rfl⟩
  | failed error => exact ⟨List.forall_mem_nil _, rfl⟩
  | terminal response _ hterminal => exact ⟨rfl, [], rfl, hterminal, List.forall_mem_nil _⟩
  | lateAnswer response _ hgoing => exact ⟨List.forall_mem_singleton.mpr hgoing, rfl, rfl⟩
  | cancelledSleep response hcancellable _ hgoing => exact ⟨List.forall_mem_singleton.mpr hgoing, rfl, hcancellable⟩

end Steps

section Runs

variable {poller : Poller T} {s : State} {rounds : List (Round T E)}

theorem spaced_drive (hrounds : ∀ r ∈ rounds, Paced poller r) :
    (drive poller.iteration s rounds).log.IsChain Event.Spaced := by
  apply drive_induction_of (Paced poller) (motive := fun _ run => run.log.IsChain Event.Spaced) _ _ _ s hrounds
  · intro s
    exact List.isChain_nil
  · intro s r events next run hr hstep hrun
    obtain ⟨hevents, hlast⟩ := spaced_again hr hstep
    exact List.isChain_append.mpr ⟨hevents, hrun, fun e he _ _ _ => hlast e he⟩
  · intro s r events verdict _ hstep
    exact spaced_done hstep

theorem countP_drive_le (hrounds : ∀ r ∈ rounds, Paced poller r) :
    (drive poller.iteration s rounds).log.countP Event.isFetch ≤ poller.timeout.nanos - s.elapsed := by
  apply countP_log_le (Paced poller) (fun s => poller.timeout.nanos - s.elapsed) _ _ s hrounds
  · intro s r events next hr hstep
    have hless := measure_lt_of_again hr hstep
    have hone := countP_again hstep
    omega
  · intro s r events verdict _ hstep
    exact countP_done hstep

theorem justified_drive (s : State) (rounds : List (Round T E)) :
    ∀ verdict, (drive poller.iteration s rounds).verdict = some verdict →
      Justified poller s.lastStatus (drive poller.iteration s rounds).log verdict := by
  apply drive_induction (motive := fun (s : State) (run : PollRun T E) =>
    ∀ verdict, run.verdict = some verdict → Justified poller s.lastStatus run.log verdict)
  · intro s verdict h
    cases h
  · intro s r events next run hstep hrun verdict h
    exact justified_again hstep (hrun verdict h)
  · intro s r events verdict hstep verdict' h
    obtain rfl := Option.some.inj h
    exact justified_done hstep

theorem length_firstRounds (surroundings : ℕ → Round T E) (n : ℕ) : (firstRounds surroundings n).length = n := by
  simp [firstRounds]

/-- A run that asks for a pause behind every response that it goes on from polls well. -/
theorem pollsWell_of_paced (haccepted : poller.rejected = false) {start : ℕ} {surroundings : ℕ → Round T E}
    (hpaced : ∀ n, ∀ r ∈ poller.readRounds start (firstRounds surroundings n), Paced poller r) :
    PollsWell poller start surroundings := by
  have hrun : ∀ rounds : List (Round T E), poller.pollUntil start rounds = drive poller.iteration ⟨start, none⟩ rounds :=
    fun rounds => if_neg (Bool.eq_false_iff.mp haccepted)
  constructor
  · refine ⟨poller.timeout.nanos - start + 1, ?_⟩
    rw [hrun, Option.isSome_iff_ne_none]
    intro hopen
    -- a run that is still open has read all its rounds
    have hrounds := hpaced (poller.timeout.nanos - start + 1)
    rw [Poller.readRounds, taken_of_verdict_eq_none hopen] at hrounds
    have hends := verdict_isSome_of_measure (Paced poller) (fun s => poller.timeout.nanos - s.elapsed)
      (fun s r events next hr hstep => measure_lt_of_again hr hstep) (s := ⟨start, none⟩) hrounds
      (by rw [length_firstRounds]; exact Nat.lt_succ_self _)
    rw [hopen] at hends
    cases hends
  · refine ⟨poller.timeout.nanos - start, fun n => ?_⟩
    rw [hrun, ← drive_taken]
    exact countP_drive_le (hpaced n)
  · intro n
    rw [hrun, ← drive_taken]
    exact spaced_drive (hpaced n)
  · intro n
    rw [hrun]
    exact forall_mem_log (onBudget_iteration poller) _ _
  · intro n verdict h
    rw [hrun] at h ⊢
    exact justified_drive _ _ verdict h

end Runs

section Hints

variable {poller : Poller T}

/-- An accepted poller only pauses for no time when it has no interval and the server asks for none. -/
theorem pacing_pos_iff (haccepted : poller.rejected = false) (response : ApiResponse T) :
    0 < (poller.pacing response).nanos ↔ poller.interval.isSome ∨ pollAfterMs response.pollAfter ≠ some 0 := by
  rw [Poller.rejected, Bool.or_eq_false_iff, Bool.or_eq_false_iff] at haccepted
  obtain ⟨⟨hinterval, hfallback⟩, -⟩ := haccepted
  rw [Poller.pacing]
  cases hset : poller.interval with
  | some interval =>
      rw [hset, Option.any_some, decide_eq_false_iff_not] at hinterval
      exact iff_of_true (Nat.pos_of_ne_zero hinterval) (.inl rfl)
  | none =>
      cases hhint : pollAfterMs response.pollAfter with
      | none => exact iff_of_true (Nat.pos_of_ne_zero (of_decide_eq_false hfallback)) (.inr (by simp))
      | some milliseconds =>
          simp only [Option.map_some, Option.none_or, Option.getD_some, Duration.fromMillis, Option.isSome_none,
            Bool.false_eq_true, false_or, ne_eq, Option.some.injEq]
          omega

/-- A round that answers at once and asks for no pause. -/
def hurried (body : T) (pollAfter : Option Bytes) : Round T E := ⟨.never, .received ⟨body, pollAfter⟩, 0, 0⟩

theorem iteration_hurried (haccepted : poller.rejected = false) {body : T} (hgoing : poller.terminal body = false)
    {pollAfter : Option Bytes} (hpause : (poller.pacing ⟨body, pollAfter⟩).nanos = 0) (status : Option String) :
    ∃ events, poller.iteration ⟨0, status⟩ (hurried body pollAfter : Round T E) =
      .again events ⟨0, some (poller.status body)⟩ := by
  rw [Poller.rejected, Bool.or_eq_false_iff] at haccepted
  have htimeout : 0 < poller.timeout.nanos := Nat.pos_of_ne_zero (of_decide_eq_false haccepted.2)
  simp [Poller.iteration, hurried, Retry.remainingTime_of_lt htimeout, hgoing, hpause]

/-- Such rounds go on forever. -/
theorem verdict_hurried (haccepted : poller.rejected = false) {body : T} (hgoing : poller.terminal body = false)
    {pollAfter : Option Bytes} (hpause : (poller.pacing ⟨body, pollAfter⟩).nanos = 0) (rounds : List (Round T E))
    (hrounds : ∀ r ∈ rounds, r = hurried body pollAfter) (status : Option String) :
    (drive poller.iteration ⟨0, status⟩ rounds).verdict = none := by
  induction rounds generalizing status with
  | nil => rfl
  | cons r rounds ih =>
      obtain ⟨rfl, hrest⟩ := List.forall_mem_cons.mp hrounds
      obtain ⟨events, hstep⟩ := iteration_hurried haccepted hgoing hpause status
      rw [drive_again hstep]
      exact ih hrest _

/-- A run is as it should be if it asks for a pause behind every response that it reads and that is not terminal.
For the headers that a server may send, all runs of a poller are as they should be exactly if it has an interval of
its own, or takes every body for terminal, or no header asks for a pause of zero milliseconds. -/
theorem pollUntil_pollsWell_iff (poller : Poller T) (haccepted : poller.rejected = false) :
    (∀ (start : ℕ) (surroundings : ℕ → Round T E),
        (∀ n, ∀ r ∈ poller.readRounds start (firstRounds surroundings n), Paced poller r) →
          PollsWell poller start surroundings) ∧
    ∀ sends : Option Bytes → Prop,
      (∀ (start : ℕ) (surroundings : ℕ → Round T E),
          (∀ k response, (surroundings k).fetch = .received response → sends response.pollAfter) →
            PollsWell poller start surroundings) ↔
        poller.interval.isSome ∨ (∀ body, poller.terminal body = true) ∨
          ∀ pollAfter, sends pollAfter → pollAfterMs pollAfter ≠ some 0 := by
  refine ⟨fun start surroundings => pollsWell_of_paced haccepted, fun sends => ?_⟩
  constructor
  · intro hall
    by_contra hnot
    push Not at hnot
    obtain ⟨hinterval, ⟨body, hbody⟩, pollAfter, hsends, hzero⟩ := hnot
    have hgoing : poller.terminal body = false := Bool.eq_false_iff.mpr hbody
    have hpause : (poller.pacing ⟨body, pollAfter⟩).nanos = 0 := by
      have hpos := (pacing_pos_iff haccepted ⟨body, pollAfter⟩).not.mpr (by simp [hinterval, hzero])
      omega
    obtain ⟨n, hends⟩ := (hall 0 (fun _ => hurried body pollAfter) (by
      intro k response hfetch
      obtain rfl := FetchEnd.received.inj hfetch
      exact hsends)).ends
    rw [Poller.pollUntil, if_neg (Bool.eq_false_iff.mp haccepted),
      verdict_hurried haccepted hgoing hpause _ (by simp [firstRounds])] at hends
    cases hends
  · intro hcondition start surroundings hsent
    apply pollsWell_of_paced haccepted
    intro n r hr response hfetch hgoing
    obtain ⟨k, -, rfl⟩ := List.mem_map.mp ((taken_sublist _ _ _).subset hr)
    rw [pacing_pos_iff haccepted]
    obtain hinterval | hterminal | hhints := hcondition
    · exact .inl hinterval
    · rw [hterminal] at hgoing
      cases hgoing
    · exact .inr (hhints _ (hsent k response hfetch))

/-- `PollOptions::new`, polling a text that is never final. -/
def serverPaced : Poller String where
  terminal _ := false
  status body := body
  interval := none
  fallbackInterval := ⟨1000000000⟩
  timeout := ⟨600000000000⟩
  cancellable := false

/-- A server that asks for a pause of fifty milliseconds. -/
theorem pollUntil_pollsWell_fifty :
    PollsWell (E := Empty) serverPaced 0 fun _ => ⟨.never, .received ⟨"in_progress", some [0x35, 0x30]⟩, 0, 0⟩ := by
  apply ((pollUntil_pollsWell_iff serverPaced (by decide)).2 fun pollAfter => pollAfter = some [0x35, 0x30]).mpr
  · right
    right
    rintro pollAfter rfl
    decide
  · intro k response hfetch
    obtain rfl := FetchEnd.received.inj hfetch
    rfl

/-- A server that asks for a pause of zero milliseconds is polled without an end. -/
theorem zeroHint_not_pollsWell : serverPaced.rejected = false ∧ ¬ PollsWell (E := Empty) serverPaced 0 fun _ =>
    ⟨.never, .received ⟨"in_progress", some [0x30]⟩, 0, 0⟩ := by
  refine ⟨by decide, fun h => ?_⟩
  obtain ⟨n, hends⟩ := h.ends
  have haccepted : serverPaced.rejected = false := by decide
  have hpause : (serverPaced.pacing ⟨"in_progress", some [0x30]⟩).nanos = 0 := by decide
  rw [Poller.pollUntil, if_neg (Bool.eq_false_iff.mp haccepted),
    verdict_hurried haccepted rfl hpause _ (by simp [firstRounds, hurried])] at hends
  cases hends

end Hints

end OpenaiRs.Polling
