import OpenaiRs.X509.Invalidation

/-!
# The result of an attempt reaches its waiters

The result of every attempt, also of a stale one, goes through one place, which the next attempt
clears. A call that looks while the result of its attempt is there returns it; a call that looks later
starts or joins another attempt.
-/

namespace OpenaiRs.X509

open Interleaving

section Waiting

/-- The attempt that a call has started or joined. -/
def LeasePc.awaits : LeasePc → Option UInt64
  | .spawning attempt _ => some attempt.id
  | .registering attempt => some attempt
  | .relocking attempt => some attempt
  | .checking attempt => some attempt
  | .parked attempt => some attempt
  | _ => none

/-- A call that ends with a result. -/
def LeasePc.ofResult : Except X509Error TokenLease → LeasePc
  | .ok lease => .returned lease
  | .error error => .failed error

/-- The result of an attempt is not kept before the attempt has left the slot. -/
def TokenState.Apart (s : TokenState) : Prop :=
  ∀ id result, s.activeAttempt = some id → s.completedAttempt ≠ some (id, result)

/-- What becomes of a call that waits for an attempt. -/
inductive Proceeds (s : TokenState) (id : UInt64) : LeasePc → Prop
  | waits {pc : LeasePc} : pc.awaits = some id →
      (pc = .parked id → ∀ result, s.completedAttempt ≠ some (id, result)) → Proceeds s id pc
  | dropped : Proceeds s id .dropped
  | obtains {result : Except X509Error TokenLease} : s.completedAttempt = some (id, result) →
      Proceeds s id (.ofResult result)
  | restarts : (∀ result, s.completedAttempt = some (id, result) → result = .error .invalidated) →
      (s.activeAttempt = some id → ∃ result, s.completedAttempt = some (id, result)) →
      Proceeds s id .locking

variable {setup : Setup} {m m' : Manager} {i k : Nat} {t t' : Task} {started : List Task} {id : UInt64}
  {pc pc' : LeasePc} {result : Except X509Error TokenLease}

@[simp] theorem conclude_state : (conclude m i result).1.state = m.state := by
  cases result <;> rfl

theorem conclude_pc : (conclude m i result).2 = .ofResult result := by
  cases result <;> rfl

@[simp] theorem complete_state {attempt : Attempt} {fallback : Option Fallback}
    {exchanged : Except X509Error ExchangedToken} {now later : Nat} :
    (complete setup m attempt fallback exchanged now later).state =
      m.state.completeAttempt setup attempt.id attempt.generation fallback exchanged now later := by
  simp only [complete]
  split <;> rfl

theorem Queues.state {monitor : Monitor TokenState} (hqueues : Queues m i t monitor t') :
    (m.withMonitor monitor).state = m.state := by
  cases hqueues <;> rfl

/-- A call that waits looks, and does nothing else with the state. -/
theorem Step.proceeds (hstep : Step setup m i (.lease pc) m' t' started) (hpc : pc.awaits = some id) :
    m'.state = m.state ∧ ∃ pc', t' = .lease pc' ∧ Proceeds m.state id pc' := by
  generalize hfrom : Task.lease pc = t at hstep
  cases hstep with
  | silent hsilent =>
      cases hsilent with
      | wake _ =>
          cases hfrom
          exact ⟨rfl, _, rfl, .waits hpc (by simp)⟩
      | dropLease => cases hfrom; cases hpc
      | _ => cases hfrom
  | enter henters _ =>
      cases henters with
      | inspect => cases hfrom; cases hpc
      | check =>
          cases hfrom
          exact ⟨rfl, _, rfl, .waits hpc (by simp)⟩
      | _ => cases hfrom
  | queue hqueues =>
      cases hqueues with
      | register =>
          cases hfrom
          exact ⟨rfl, _, rfl, .waits hpc (by simp)⟩
      | dropRelocking => exact ⟨rfl, _, rfl, .dropped⟩
      | dropParked => exact ⟨rfl, _, rfl, .dropped⟩
      | _ => cases hfrom
  | leave hleaves =>
      cases hleaves with
      | join _ _ => cases hfrom; cases hpc
      | invalidated hinvalidated =>
          cases hfrom
          cases hpc
          refine ⟨rfl, _, rfl, .restarts ?_ fun _ => ⟨_, hinvalidated⟩⟩
          intro result hresult
          rw [hinvalidated] at hresult
          cases hresult
          rfl
      | replaced hnone hinactive =>
          cases hfrom
          cases hpc
          exact ⟨rfl, _, rfl, .restarts (fun r hr => absurd hr (hnone r)) fun h => absurd h hinactive⟩
      | park hnone _ =>
          cases hfrom
          cases hpc
          exact ⟨rfl, _, rfl, .waits rfl fun _ => hnone⟩
      | refuse _ => cases hfrom
  | spawn =>
      cases hfrom
      exact ⟨rfl, _, rfl, .waits hpc (by simp)⟩
  | conclude hfinds =>
      cases hfrom
      cases hfinds with
      | cached _ _ => cases hpc
      | completed hcompleted _ =>
          cases hpc
          refine ⟨conclude_state, _, rfl, ?_⟩
          rw [conclude_pc]
          exact .obtains hcompleted
  | «begin» _ _ => cases hfrom; cases hpc
  | invalidate _ => cases hfrom
  | complete => cases hfrom

theorem Step.apart (hstep : Step setup m i t m' t' started) (hapart : m.state.Apart) : m'.state.Apart := by
  cases hstep with
  | queue hqueues =>
      rw [hqueues.state]
      exact hapart
  | conclude _ =>
      rw [conclude_state]
      exact hapart
  | «begin» _ _ =>
      intro id result _ hcompleted
      cases hcompleted
  | @invalidate generation s hinvalidate =>
      rw [TokenState.invalidateIfGeneration] at hinvalidate
      split at hinvalidate
      · cases hinvalidate
      · cases hinvalidate
        intro id result _ hcompleted
        cases hcompleted
  | complete =>
      rw [complete_state]
      intro id result hactive hcompleted
      cases hcompleted
      simp only [TokenState.completeAttempt, TokenState.finishAttempt] at hactive
      split at hactive
      · cases hactive
      · rename_i hother
        exact hother hactive
  | _ => exact hapart

/-- The other tasks only take calls from the waiters, and the task of an attempt takes them all. -/
theorem Step.waiters (hstep : Step setup m k t m' t' started) (hne : i ≠ k)
    (hmem : i ∈ m'.monitor.waiters) :
    i ∈ m.monitor.waiters ∧ ∀ attempt fallback, t ≠ .attempt attempt fallback .notifying := by
  cases hstep with
  | silent hsilent => cases hsilent <;> exact ⟨hmem, by simp⟩
  | enter henters _ => cases henters <;> exact ⟨hmem, by simp⟩
  | queue hqueues =>
      cases hqueues with
      | register =>
          obtain heq | hold := List.mem_cons.mp hmem
          · exact absurd heq hne
          · exact ⟨hold, by simp⟩
      | dropRelocking => exact ⟨(Monitor.mem_waiters_forget.mp hmem).1, by simp⟩
      | dropParked => exact ⟨(Monitor.mem_waiters_forget.mp hmem).1, by simp⟩
      | invalidate => cases hmem
      | attempt => cases hmem
  | leave hleaves => cases hleaves <;> exact ⟨hmem, by simp⟩
  | @conclude pc result _ => cases result <;> exact ⟨hmem, by simp⟩
  | complete =>
      rw [X509.complete] at hmem
      split at hmem <;> exact ⟨hmem, by simp⟩
  | _ => exact ⟨hmem, by simp⟩

end Waiting

section Keeping

variable {setup : Setup} {m m' : Manager} {i : Nat} {t t' : Task} {started : List Task} {choice : Choice}

/-- The step clears or overwrites the result that is kept: an attempt starts, a token is invalidated,
or an attempt completes. -/
def Overwrites (m : Manager) : Task → Choice → Prop
  | .lease .inspecting, .clock now _ => m.Stale now ∧ m.state.activeAttempt = none
  | .invalidate generation .comparing, _ => m.state.invalidateIfGeneration generation ≠ none
  | .attempt _ _ (.storing _), _ => True
  | _, _ => False

theorem inspect_keeps {now later : Nat} (h : ¬ (m.Stale now ∧ m.state.activeAttempt = none)) :
    (inspect setup m i now later).1.state = m.state := by
  rw [inspect]
  split
  · exact conclude_state
  · rename_i hstale
    split
    · rfl
    · rename_i hnone
      exact absurd ⟨Manager.stale_of_filter hstale, hnone⟩ h

/-- No other step touches the result. -/
theorem act_keeps (hact : act setup m i t choice = some (m', t', started)) (h : ¬ Overwrites m t choice) :
    m'.state.completedAttempt = m.state.completedAttempt := by
  have hinspect : ∀ now later, t = .lease .inspecting → choice = .clock now later →
      m'.state.completedAttempt = m.state.completedAttempt := by
    rintro now later rfl rfl
    have hkeeps : (inspect setup m i now later).1.state = m.state := inspect_keeps h
    cases hact
    exact congrArg TokenState.completedAttempt hkeeps
  have hstep := act_step hact
  cases hstep with
  | «begin» _ _ =>
      cases choice with
      | clock now later => exact hinspect now later rfl rfl
      | _ => cases hact
  | queue hqueues => rw [hqueues.state]
  | conclude _ => rw [conclude_state]
  | invalidate hinvalidate =>
      refine absurd ?_ h
      rw [Overwrites, hinvalidate]
      simp
  | complete => exact absurd trivial h
  | _ => rfl

end Keeping

section Runs

variable {setup : Setup} {cfg : Config Manager Task} {i j : Nat} {id : UInt64}
  {result : Except X509Error TokenLease}

/-- The call has started or joined the attempt, which is in the slot. -/
structure Joined (cfg : Config Manager Task) (i : Nat) (id : UInt64) : Prop where
  active : cfg.shared.state.activeAttempt = some id
  call : ∃ pc, cfg.tasks[i]? = some (.lease pc) ∧ pc.awaits = some id

/-- Where a call stands that has joined an attempt which task `j` has completed with a result. -/
inductive Receives (cfg : Config Manager Task) (i j : Nat) (id : UInt64)
    (result : Except X509Error TokenLease) : Prop
  /-- It still waits, and is not parked unless it will be notified. -/
  | waits {pc : LeasePc} : cfg.tasks[i]? = some (.lease pc) → pc.awaits = some id →
      cfg.shared.state.completedAttempt = some (id, result) →
      (pc = .parked id → i ∈ cfg.shared.monitor.waiters →
        ∃ attempt fallback, cfg.tasks[j]? = some (.attempt attempt fallback .notifying)) →
      Receives cfg i j id result
  | ended : cfg.tasks[i]? = some (.lease (.ofResult result)) → Receives cfg i j id result
  | dropped : cfg.tasks[i]? = some (.lease .dropped) → Receives cfg i j id result

/-- A call gets the result, and has it as soon as it looks. -/
structure Delivers (setup : Setup) (cfg : Config Manager Task) (i j : Nat) (id : UInt64)
    (result : Except X509Error TokenLease) : Prop where
  receives : Receives cfg i j id result
  looks : cfg.tasks[i]? = some (.lease (.checking id)) →
    ((system setup).exec cfg (.act i .proceed)).tasks[i]? = some (.lease (.ofResult result))

/-- In a run, every call that has joined an attempt which stays in the slot until its task completes it
gets the result, at the end of the run. -/
def DeliversResults (setup : Setup) (events : List (Event Choice Arrival)) : Prop :=
  ∀ (before mid after : List (Event Choice Arrival)) (i j : Nat) (attempt : Attempt)
    (fallback : Option Fallback) (exchanged : Except X509Error ExchangedToken) (now later : Nat),
    events = before ++ (mid ++ .act j (.clock now later) :: after) →
    Joined ((system setup).run Start before) i attempt.id →
    (system setup).Meets (fun cfg _ => cfg.shared.state.activeAttempt = some attempt.id)
      ((system setup).run Start before) mid →
    ((system setup).run Start (before ++ mid)).tasks[j]? =
      some (.attempt attempt fallback (.storing exchanged)) →
    ((system setup).run Start (before ++ mid)).shared.state.IsCurrent attempt.id attempt.generation →
    exchanged ≠ .error .invalidated →
    Delivers setup ((system setup).run Start events) i j attempt.id
      (((system setup).run Start (before ++ mid)).shared.state.outcome setup attempt.id attempt.generation
        fallback exchanged now later).2

/-- The step does not clear or overwrite a result that a call waits for. -/
def Considerate (cfg : Config Manager Task) (event : Event Choice Arrival) : Prop :=
  ∀ k choice t, event = .act k choice → cfg.tasks[k]? = some t → Overwrites cfg.shared t choice →
    ∀ (i : Nat) (pc : LeasePc) id result, cfg.tasks[i]? = some (.lease pc) → pc.awaits = some id →
      cfg.shared.state.completedAttempt = some (id, result) → result = .error .invalidated

theorem apart_preserved :
    (system setup).Preserved (fun _ _ => True) fun cfg => cfg.shared.state.Apart := by
  intro cfg event hapart _
  have hmoves := (system setup).exec_moves cfg event
  generalize (system setup).exec cfg event = cfg' at hmoves
  cases hmoves with
  | still => exact hapart
  | act _ hact => exact (act_step hact).apart hapart
  | env henv =>
      obtain ⟨rfl, -⟩ := env_quiet henv
      exact hapart

/-- A call that has joined the attempt in the slot waits until the attempt leaves it. -/
structure Waiting (cfg : Config Manager Task) (i : Nat) (id : UInt64) : Prop where
  apart : cfg.shared.state.Apart
  call : ∃ pc, cfg.tasks[i]? = some (.lease pc) ∧ (pc.awaits = some id ∨ pc = .dropped)

theorem leaseStep_ofResult {m : Manager} {choice : Choice} :
    leaseStep setup m i (.ofResult result) choice = none := by
  cases result <;> cases choice <;> rfl

theorem leaseStep_dropped {m : Manager} {choice : Choice} : leaseStep setup m i .dropped choice = none := by
  cases choice <;> rfl

/-- A call that has ended takes no step. -/
theorem exec_final {pc : LeasePc} (event : Event Choice Arrival) (htask : cfg.tasks[i]? = some (.lease pc))
    (hfinal : ∀ {m choice}, leaseStep setup m i pc choice = none) :
    ((system setup).exec cfg event).tasks[i]? = some (.lease pc) := by
  have hmoves := (system setup).exec_movesTask htask event
  generalize (system setup).exec cfg event = cfg' at hmoves
  cases hmoves with
  | still => exact htask
  | own hact _ =>
      obtain ⟨_, hstep, -⟩ := Option.map_eq_some_iff.mp hact
      rw [hfinal] at hstep
      cases hstep
  | other hne _ _ => exact System.getElem?_set_append_ne hne htask
  | env _ => exact System.getElem?_append_of_eq_some htask

theorem Waiting.step (h : Waiting cfg i id) (event : Event Choice Arrival)
    (hactive : cfg.shared.state.activeAttempt = some id) : Waiting ((system setup).exec cfg event) i id := by
  refine ⟨apart_preserved cfg event h.apart trivial, ?_⟩
  obtain ⟨pc, htask, hpc⟩ := h.call
  have hmoves := (system setup).exec_movesTask htask event
  generalize (system setup).exec cfg event = cfg' at hmoves
  cases hmoves with
  | still => exact h.call
  | own hact hnow =>
      obtain hawaits | rfl := hpc
      · obtain ⟨-, pc', rfl, hproceeds⟩ := (act_step hact).proceeds hawaits
        refine ⟨pc', hnow, ?_⟩
        cases hproceeds with
        | waits hawaits' _ => exact .inl hawaits'
        | dropped => exact .inr rfl
        | obtains hcompleted => exact absurd hcompleted (h.apart id _ hactive)
        | restarts _ hresult =>
            obtain ⟨result, hcompleted⟩ := hresult hactive
            exact absurd hcompleted (h.apart id result hactive)
      · cases hact
  | other hne _ _ => exact ⟨pc, System.getElem?_set_append_ne hne htask, hpc⟩
  | env _ => exact ⟨pc, System.getElem?_append_of_eq_some htask, hpc⟩

theorem Waiting.run (h : Waiting cfg i id) {events : List (Event Choice Arrival)}
    (hmeets : (system setup).Meets (fun cfg _ => cfg.shared.state.activeAttempt = some id) cfg events) :
    Waiting ((system setup).run cfg events) i id := by
  have hpreserved : (system setup).Preserved (fun cfg _ => cfg.shared.state.activeAttempt = some id)
      fun cfg => Waiting cfg i id := fun cfg event hwaiting hactive => hwaiting.step event hactive
  exact hpreserved.run h hmeets

/-- The completion of an attempt leaves its result for the calls that wait for it. -/
theorem Waiting.completed (h : Waiting cfg i id) {attempt : Attempt} {fallback : Option Fallback}
    {exchanged : Except X509Error ExchangedToken} (now later : Nat) (hid : attempt.id = id)
    (htask : cfg.tasks[j]? = some (.attempt attempt fallback (.storing exchanged))) :
    Receives ((system setup).exec cfg (.act j (.clock now later))) i j id
      (cfg.shared.state.outcome setup attempt.id attempt.generation fallback exchanged now later).2 := by
  obtain ⟨pc, hcall, hpc⟩ := h.call
  have hne : j ≠ i := by
    rintro rfl
    rw [htask] at hcall
    cases hcall
  have hact : (system setup).act cfg.shared j (.attempt attempt fallback (.storing exchanged))
      (.clock now later) = some (complete setup cfg.shared attempt fallback exchanged now later,
        .attempt attempt fallback .notifying, []) := rfl
  rw [(system setup).exec_act htask hact]
  have hkept : (cfg.tasks.set j (.attempt attempt fallback .notifying) ++ [])[i]? = some _ :=
    System.getElem?_set_append_ne hne hcall
  obtain hawaits | rfl := hpc
  · refine .waits hkept hawaits ?_ fun _ _ => ⟨attempt, fallback, ?_⟩
    · rw [complete_state, ← hid]
      rfl
    · rw [List.append_nil]
      exact List.getElem?_set_self (List.getElem?_eq_some_iff.mp htask).1
  · exact .dropped hkept

/-- The result stays until the call has it. -/
theorem Receives.step (h : Receives cfg i j id result) (hproper : result ≠ .error .invalidated)
    (event : Event Choice Arrival) (hconsiderate : Considerate cfg event) :
    Receives ((system setup).exec cfg event) i j id result := by
  cases h with
  | @waits pc htask hawaits hcompleted hwoken =>
      have hmoves := (system setup).exec_movesTask htask event
      generalize (system setup).exec cfg event = cfg' at hmoves
      cases hmoves with
      | still => exact .waits htask hawaits hcompleted hwoken
      | own hact hnow =>
          obtain ⟨hstate, pc', rfl, hproceeds⟩ := (act_step hact).proceeds hawaits
          cases hproceeds with
          | waits hawaits' hnone =>
              refine .waits hnow hawaits' ?_ fun hparked => ?_
              · rw [hstate]
                exact hcompleted
              · exact absurd hcompleted (hnone hparked result)
          | dropped => exact .dropped hnow
          | obtains hcompleted' =>
              rw [hcompleted] at hcompleted'
              cases hcompleted'
              exact .ended hnow
          | restarts hinvalidated _ => exact absurd (hinvalidated result hcompleted) hproper
      | @other k choice u u' m' started hne hacting hact =>
          have hquiet : ¬ Overwrites cfg.shared u choice := by
            intro hoverwrites
            exact hproper (hconsiderate k choice u rfl hacting hoverwrites i pc id result htask hawaits
              hcompleted)
          refine .waits (System.getElem?_set_append_ne hne htask) hawaits ?_ ?_
          · rw [act_keeps hact hquiet]
            exact hcompleted
          · intro hparked hmem
            obtain ⟨hold, hother⟩ := (act_step hact).waiters (Ne.symm hne) hmem
            obtain ⟨attempt, fallback, hnotifying⟩ := hwoken hparked hold
            refine ⟨attempt, fallback, System.getElem?_set_append_ne ?_ hnotifying⟩
            rintro rfl
            exact hother attempt fallback (Option.some.inj (hacting.symm.trans hnotifying))
      | env henv =>
          obtain ⟨rfl, -⟩ := env_quiet henv
          refine .waits (System.getElem?_append_of_eq_some htask) hawaits hcompleted ?_
          intro hparked hmem
          obtain ⟨attempt, fallback, hnotifying⟩ := hwoken hparked hmem
          exact ⟨attempt, fallback, System.getElem?_append_of_eq_some hnotifying⟩
  | ended htask => exact .ended (exec_final event htask leaseStep_ofResult)
  | dropped htask => exact .dropped (exec_final event htask leaseStep_dropped)

theorem Receives.run (h : Receives cfg i j id result) (hproper : result ≠ .error .invalidated)
    {events : List (Event Choice Arrival)} (hmeets : (system setup).Meets Considerate cfg events) :
    Receives ((system setup).run cfg events) i j id result := by
  have hpreserved : (system setup).Preserved Considerate fun cfg => Receives cfg i j id result :=
    fun cfg event hreceives hconsiderate => hreceives.step hproper event hconsiderate
  exact hpreserved.run h hmeets

theorem check_completed {m : Manager} (hcompleted : m.state.completedAttempt = some (id, result))
    (hproper : result ≠ .error .invalidated) : check m i id = conclude m i result := by
  rw [check, hcompleted, Option.filter_some, if_pos (by simp)]
  split
  · rename_i heq
    cases heq
    exact absurd rfl hproper
  · rename_i heq
    cases heq
    rfl
  · rename_i heq
    cases heq

theorem Receives.delivers (h : Receives cfg i j id result) (hproper : result ≠ .error .invalidated) :
    Delivers setup cfg i j id result := by
  refine ⟨h, fun hchecking => ?_⟩
  have hcompleted : cfg.shared.state.completedAttempt = some (id, result) := by
    cases h with
    | waits _ _ hcompleted _ => exact hcompleted
    | ended htask =>
        rw [hchecking] at htask
        cases result <;> cases htask
    | dropped htask =>
        rw [hchecking] at htask
        cases htask
  have hact : (system setup).act cfg.shared i (.lease (.checking id)) .proceed =
      some ((conclude cfg.shared i result).1, .lease (.ofResult result), []) := by
    simp only [system, act, leaseStep, check_completed hcompleted hproper, Option.map_some, conclude_pc]
  rw [(system setup).exec_act hchecking hact, List.append_nil]
  exact List.getElem?_set_self (List.getElem?_eq_some_iff.mp hchecking).1

theorem leaseOf_ne_invalidated {secret : String} {generation : UInt64} :
    leaseOf setup secret generation ≠ .error .invalidated := by
  rw [leaseOf]
  split <;> simp

/-- What a current attempt makes of its exchange is never that it was invalidated. -/
theorem settle_ne_invalidated {s : TokenState} {fallback : Option Fallback}
    {exchanged : Except X509Error ExchangedToken} {now later : Nat}
    (hanswer : exchanged ≠ .error .invalidated) :
    (s.settle setup fallback exchanged now later).2 ≠ .error .invalidated := by
  cases exchanged with
  | ok token =>
      rw [TokenState.settle]
      split
      · simp
      · exact leaseOf_ne_invalidated
  | error error =>
      rw [TokenState.settle]
      split
      · exact leaseOf_ne_invalidated
      · simpa using hanswer

/-- In every run in which no step clears or overwrites a result that a call waits for, the calls get
the results of their attempts. -/
theorem results_are_delivered (setup : Setup) (events : List (Event Choice Arrival))
    (hmeets : (system setup).Meets Considerate Start events) : DeliversResults setup events := by
  rintro before mid after i j attempt fallback exchanged now later rfl hjoined hstays htask hcurrent hanswer
  obtain ⟨-, hrest⟩ := (system setup).meets_append.mp hmeets
  obtain ⟨-, -, hafter⟩ := (system setup).meets_append.mp hrest
  have hapart : ((system setup).run Start before).shared.state.Apart := by
    apply apart_preserved.run_free
    intro id result hactive
    cases hactive
  have hwaiting : Waiting ((system setup).run Start before) i attempt.id := by
    obtain ⟨pc, hcall, hawaits⟩ := hjoined.call
    exact ⟨hapart, pc, hcall, .inl hawaits⟩
  have hwaited := hwaiting.run hstays
  rw [← System.run_append] at hwaited hafter
  have houtcome : (((system setup).run Start (before ++ mid)).shared.state.outcome setup attempt.id
      attempt.generation fallback exchanged now later).2 ≠ .error .invalidated := by
    rw [TokenState.outcome, if_pos hcurrent]
    exact settle_ne_invalidated hanswer
  have hcompleted : Receives ((system setup).exec _ _) i j attempt.id _ :=
    hwaited.completed now later rfl htask
  rw [← List.append_assoc, System.run_append]
  exact (hcompleted.run houtcome hafter).delivers houtcome

/-- A check that implies `Considerate`: no call waits for the result when a step can overwrite it. -/
def considerate (cfg : Config Manager Task) : Event Choice Arrival → Bool
  | .env _ => true
  | .act k _ =>
      match cfg.tasks[k]? with
      | some (.lease .inspecting) => unread
      | some (.invalidate _ .comparing) => unread
      | some (.attempt _ _ (.storing _)) => unread
      | _ => true
where
  unread : Bool := cfg.tasks.all fun t =>
    match t with
    | .lease pc => pc.awaits.isNone || cfg.shared.state.completedAttempt.map Prod.fst ≠ pc.awaits
    | _ => true

theorem considerate_of_check {event : Event Choice Arrival} (h : considerate cfg event = true) :
    Considerate cfg event := by
  rintro k choice t rfl htask hoverwrites i pc id result hcall hawaits hcompleted
  have hunread : considerate.unread cfg = true := by
    rw [considerate, htask] at h
    cases t with
    | lease pc =>
        cases pc with
        | inspecting => exact h
        | _ => cases hoverwrites
    | invalidate generation pc =>
        cases pc with
        | comparing => exact h
        | _ => cases hoverwrites
    | attempt attempt fallback pc =>
        cases pc with
        | storing exchanged => exact h
        | _ => cases hoverwrites
  have hwaits := List.all_eq_true.mp hunread _ (List.mem_of_getElem? hcall)
  simp [hawaits, hcompleted] at hwaits

/-- A call waits for an attempt, whose exchange fails, and looks at once. -/
def refusedRun : List (Event Choice Arrival) :=
  .env .lease :: waiting 0 0 ++ answering 1 0 (.error (.oauth 400 none)) ++ checking 0

theorem results_are_delivered_at_once :
    ((system ⟨some, (· / 2), 10⟩).run Start refusedRun).tasks[0]? =
      some (.lease (.failed (.oauth 400 none))) ∧
    DeliversResults ⟨some, (· / 2), 10⟩ refusedRun := by
  constructor
  · rfl
  · have hchecks : (system ⟨some, (· / 2), 10⟩).Meets (fun cfg event => considerate cfg event = true)
        Start refusedRun := by
      decide
    apply results_are_delivered ⟨some, (· / 2), 10⟩ refusedRun
    exact System.Meets.imp_and _ hchecks hchecks fun cfg event h _ => considerate_of_check h

/-- Another call starts the next attempt before the waiter looks. -/
def overtakenRun : List (Event Choice Arrival) :=
  .env .lease :: waiting 0 0 ++ answering 1 0 (.error (.oauth 400 none)) ++
    [.env .lease, .act 2 .proceed, .act 2 (.clock 0 0)] ++ checking 0

/-- The second attempt is invalidated and its waiter starts the third one. -/
def restartedRun : List (Event Choice Arrival) :=
  .env .lease :: waiting 0 0 ++ answering 1 0 (.ok ⟨"first", 100, 0⟩) ++ checking 0 ++
    .env .lease :: waiting 2 95 ++
    [.env (.invalidate 1), .act 4 .proceed, .act 4 .proceed, .act 4 .proceed] ++
    checking 2 ++ waiting 2 96

/-- The second attempt completes before the waiter of the third one looks. -/
def overwrittenRun : List (Event Choice Arrival) :=
  restartedRun ++ (answering 5 97 (.error (.oauth 400 none)) ++ answering 3 98 (.error .exchangeTimeout) ++
    checking 2)

/-- The waiters start again: they have lost the error of their attempt. -/
theorem results_are_lost :
    ¬ DeliversResults ⟨some, (· / 2), 10⟩ overtakenRun ∧
    ¬ DeliversResults ⟨some, (· / 2), 10⟩ overwrittenRun := by
  constructor
  · intro hdelivers
    have hlost := hdelivers (.env .lease :: waiting 0 0)
      [.act 1 (.exchanged (.error (.oauth 400 none))), .act 1 .proceed] _ 0 1 ⟨0, 1, 0⟩ none
      (.error (.oauth 400 none)) 0 0 rfl ⟨rfl, _, rfl, rfl⟩ (by decide) rfl (by decide) (by simp)
    cases hlost.receives with
    | waits htask hawaits _ _ => cases htask; cases hawaits
    | ended htask => cases htask
    | dropped htask => cases htask
  · intro hdelivers
    have hlost := hdelivers restartedRun
      [.act 5 (.exchanged (.error (.oauth 400 none))), .act 5 .proceed] _ 2 5 ⟨2, 3, 2⟩ none
      (.error (.oauth 400 none)) 97 97 rfl ⟨rfl, _, rfl, rfl⟩ (by decide) rfl (by decide) (by simp)
    cases hlost.receives with
    | waits htask hawaits _ _ => cases htask; cases hawaits
    | ended htask => cases htask
    | dropped htask => cases htask

end Runs

end OpenaiRs.X509
