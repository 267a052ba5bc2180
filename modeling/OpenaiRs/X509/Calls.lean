import OpenaiRs.X509.State

/-!
# Calls on the X.509 token manager

`lease`, `wait_for_attempt`, `invalidate_if_generation` and the detached attempts of
`X509TokenManager`, as tasks that take one step at a time.

## Implementation notes

The last access to the state in a critical section and the release of the mutex are one step:
nobody can see the state in between. An attempt is spawned after the mutex has been released. The
exchange is what the choice of the step says. A call can be dropped where it awaits something. The
history and the serial numbers only record what happened; no step reads them.
-/

namespace OpenaiRs.X509

open Interleaving

section Tasks

/-- An attempt, with the place that it has among all attempts. -/
structure Attempt where
  serial : Nat
  id : UInt64
  generation : UInt64

/-- Where a call of `lease` stands; in `inspecting` and `checking` it holds the mutex. -/
inductive LeasePc where
  | locking
  | inspecting
  /-- The attempt is in the slot and its task is not spawned yet. -/
  | spawning (attempt : Attempt) (fallback : Option Fallback)
  /-- In front of `notify.notified()`. -/
  | registering (attempt : UInt64)
  | relocking (attempt : UInt64)
  | checking (attempt : UInt64)
  | parked (attempt : UInt64)
  | returned (lease : TokenLease)
  | failed (error : X509Error)
  | dropped

/-- Where a call of `invalidate_if_generation` stands; in `comparing` it holds the mutex. -/
inductive InvalidatePc where
  | locking
  | comparing
  | notifying
  | ended (invalidated : Bool)
  | dropped

/-- Where the task of an attempt stands; in `storing` it holds the mutex. -/
inductive AttemptPc where
  | exchanging
  | completing (exchanged : Except X509Error ExchangedToken)
  | storing (exchanged : Except X509Error ExchangedToken)
  | notifying
  | ended

inductive Task where
  | lease (pc : LeasePc)
  | invalidate (generation : UInt64) (pc : InvalidatePc)
  | attempt (attempt : Attempt) (fallback : Option Fallback) (pc : AttemptPc)

inductive Choice where
  | proceed
  /-- What `Instant::now` returns, at first and later in the same critical section. -/
  | clock (now later : Nat)
  | exchanged (answer : Except X509Error ExchangedToken)
  | drop

/-- What happened, the latest first. -/
inductive Observation where
  | begun (attempt : Attempt)
  | obtained (serial : Nat) (token : CachedToken)
  | invalidated (generation : UInt64)
  | returned (call : Nat) (lease : TokenLease)

structure Manager where
  monitor : Monitor TokenState
  history : List Observation

def Manager.init : Manager := ⟨.init .default, []⟩

end Tasks

section Steps

namespace Manager

def state (m : Manager) : TokenState := m.monitor.state

def observe (m : Manager) (o : Observation) : Manager := { m with history := o :: m.history }

/-- Writes the state. -/
def store (m : Manager) (s : TokenState) : Manager := { m with monitor := m.monitor.store s }

/-- Releases the mutex. -/
def unlock (m : Manager) : Manager := { m with monitor := m.monitor.release }

/-- Touches the mutex and the waiters. -/
def withMonitor (m : Manager) (monitor : Monitor TokenState) : Manager := { m with monitor }

end Manager

/-- The number of attempts. -/
def begins : List Observation → Nat
  | [] => 0
  | .begun _ :: rest => begins rest + 1
  | _ :: rest => begins rest

/-- The attempt that starts in this state. -/
def Manager.nextAttempt (m : Manager) : Attempt :=
  ⟨begins m.history, m.state.nextAttempt + 1, m.state.generation⟩

variable (setup : Setup)

/-- The critical section returns a result. -/
def conclude (m : Manager) (i : Nat) : Except X509Error TokenLease → Manager × LeasePc
  | .ok lease => ((m.observe (.returned i lease)).unlock, .returned lease)
  | .error error => (m.unlock, .failed error)

/-- The critical section of `lease`. -/
def inspect (m : Manager) (i : Nat) (now later : Nat) : Manager × LeasePc :=
  match m.state.cached.filter fun cached => now < cached.refreshAt with
  | some cached => conclude m i (tokenLease setup cached)
  | none =>
      match m.state.activeAttempt with
      | some attempt => (m.unlock, .registering attempt)
      | none =>
          (((m.store m.state.startAttempt).observe (.begun m.nextAttempt)).unlock,
            .spawning m.nextAttempt (m.state.fallback later))

/-- The critical section of `wait_for_attempt`; `lease` starts again when the attempt was
invalidated. -/
def check (m : Manager) (i : Nat) (attempt : UInt64) : Manager × LeasePc :=
  match m.state.completedAttempt.filter fun completed => completed.1 = attempt with
  | some (_, .error .invalidated) => (m.unlock, .locking)
  | some (_, result) => conclude m i result
  | none =>
      if m.state.activeAttempt = some attempt then (m.unlock, .parked attempt) else (m.unlock, .locking)

def leaseStep (m : Manager) (i : Nat) : LeasePc → Choice → Option (Manager × LeasePc × List Task)
  | .locking, .proceed =>
      (m.monitor.acquire i).map fun monitor => (m.withMonitor monitor, .inspecting, [])
  | .inspecting, .clock now later =>
      let (m', pc) := inspect setup m i now later
      some (m', pc, [])
  | .spawning attempt fallback, .proceed =>
      some (m, .registering attempt.id, [.attempt attempt fallback .exchanging])
  | .registering attempt, .proceed =>
      some (m.withMonitor (m.monitor.register i), .relocking attempt, [])
  | .relocking attempt, .proceed =>
      (m.monitor.acquire i).map fun monitor => (m.withMonitor monitor, .checking attempt, [])
  | .checking attempt, .proceed =>
      let (m', pc) := check m i attempt
      some (m', pc, [])
  | .parked attempt, .proceed => if i ∈ m.monitor.waiters then none else some (m, .registering attempt, [])
  | .locking, .drop => some (m, .dropped, [])
  | .relocking _, .drop => some (m.withMonitor (m.monitor.forget i), .dropped, [])
  | .parked _, .drop => some (m.withMonitor (m.monitor.forget i), .dropped, [])
  | _, _ => none

def invalidateStep (m : Manager) (i : Nat) (generation : UInt64) :
    InvalidatePc → Choice → Option (Manager × InvalidatePc)
  | .locking, .proceed => (m.monitor.acquire i).map fun monitor => (m.withMonitor monitor, .comparing)
  | .comparing, .proceed =>
      match m.state.invalidateIfGeneration generation with
      | none => some (m.unlock, .ended false)
      | some s => some (((m.store s).observe (.invalidated generation)).unlock, .notifying)
  | .notifying, .proceed => some (m.withMonitor m.monitor.notifyWaiters, .ended true)
  | .locking, .drop => some (m, .dropped)
  | _, _ => none

/-- The critical section of an attempt. -/
def complete (m : Manager) (attempt : Attempt) (fallback : Option Fallback)
    (exchanged : Except X509Error ExchangedToken) (now later : Nat) : Manager :=
  let s := m.state.completeAttempt setup attempt.id attempt.generation fallback exchanged now later
  let m' := (m.store s).unlock
  -- The generation moves when the exchange has succeeded.
  match s.cached.filter fun _ => s.generation ≠ m.state.generation with
  | some token => m'.observe (.obtained attempt.serial token)
  | none => m'

def attemptStep (m : Manager) (i : Nat) (attempt : Attempt) (fallback : Option Fallback) :
    AttemptPc → Choice → Option (Manager × AttemptPc)
  | .exchanging, .exchanged answer => some (m, .completing answer)
  | .completing exchanged, .proceed =>
      (m.monitor.acquire i).map fun monitor => (m.withMonitor monitor, .storing exchanged)
  | .storing exchanged, .clock now later =>
      some (complete setup m attempt fallback exchanged now later, .notifying)
  | .notifying, .proceed => some (m.withMonitor m.monitor.notifyWaiters, .ended)
  | _, _ => none

def act (m : Manager) (i : Nat) : Task → Choice → Option (Manager × Task × List Task)
  | .lease pc, choice =>
      (leaseStep setup m i pc choice).map fun (m', pc', started) => (m', .lease pc', started)
  | .invalidate generation pc, choice =>
      (invalidateStep m i generation pc choice).map fun (m', pc') => (m', .invalidate generation pc', [])
  | .attempt attempt fallback pc, choice =>
      (attemptStep setup m i attempt fallback pc choice).map fun (m', pc') =>
        (m', .attempt attempt fallback pc', [])

/-- Somebody calls `lease` or `invalidate_if_generation`. -/
inductive Arrival where
  | lease
  | invalidate (generation : UInt64)

def Arrival.task : Arrival → Task
  | .lease => .lease .locking
  | .invalidate generation => .invalidate generation .locking

def system : System Manager Task Choice Arrival where
  act := act setup
  env m arrival := some (m, [arrival.task])

abbrev Start : Config Manager Task := ⟨.init, []⟩

end Steps

section Relation

/-- No token is fresh enough. -/
def Manager.Stale (m : Manager) (now : Nat) : Prop :=
  ∀ cached, m.state.cached = some cached → cached.refreshAt ≤ now

/-- A task that takes the mutex: where it stands before and behind. -/
inductive Enters : Task → Task → Prop
  | inspect : Enters (.lease .locking) (.lease .inspecting)
  | check {attempt : UInt64} : Enters (.lease (.relocking attempt)) (.lease (.checking attempt))
  | compare {generation : UInt64} :
      Enters (.invalidate generation .locking) (.invalidate generation .comparing)
  | store {attempt : Attempt} {fallback : Option Fallback} {exchanged : Except X509Error ExchangedToken} :
      Enters (.attempt attempt fallback (.completing exchanged)) (.attempt attempt fallback (.storing exchanged))

/-- A step that leaves everything shared as it is. -/
inductive Silent (m : Manager) (i : Nat) : Task → Task → Prop
  | wake {attempt : UInt64} : i ∉ m.monitor.waiters →
      Silent m i (.lease (.parked attempt)) (.lease (.registering attempt))
  | dropLease : Silent m i (.lease .locking) (.lease .dropped)
  | dropInvalidate {generation : UInt64} :
      Silent m i (.invalidate generation .locking) (.invalidate generation .dropped)
  | exchanged {attempt : Attempt} {fallback : Option Fallback} {answer : Except X509Error ExchangedToken} :
      Silent m i (.attempt attempt fallback .exchanging) (.attempt attempt fallback (.completing answer))

/-- A step that touches the waiters and nothing else shared. -/
inductive Queues (m : Manager) (i : Nat) : Task → Monitor TokenState → Task → Prop
  | register {attempt : UInt64} :
      Queues m i (.lease (.registering attempt)) (m.monitor.register i) (.lease (.relocking attempt))
  | dropRelocking {attempt : UInt64} :
      Queues m i (.lease (.relocking attempt)) (m.monitor.forget i) (.lease .dropped)
  | dropParked {attempt : UInt64} :
      Queues m i (.lease (.parked attempt)) (m.monitor.forget i) (.lease .dropped)
  | invalidate {generation : UInt64} :
      Queues m i (.invalidate generation .notifying) m.monitor.notifyWaiters (.invalidate generation (.ended true))
  | attempt {attempt : Attempt} {fallback : Option Fallback} :
      Queues m i (.attempt attempt fallback .notifying) m.monitor.notifyWaiters (.attempt attempt fallback .ended)

/-- The end of a critical section that leaves the state as it is. -/
inductive Leaves (m : Manager) : Task → Task → Prop
  | join {now : Nat} {attempt : UInt64} : m.Stale now → m.state.activeAttempt = some attempt →
      Leaves m (.lease .inspecting) (.lease (.registering attempt))
  | invalidated {attempt : UInt64} : m.state.completedAttempt = some (attempt, .error .invalidated) →
      Leaves m (.lease (.checking attempt)) (.lease .locking)
  | replaced {attempt : UInt64} : (∀ result, m.state.completedAttempt ≠ some (attempt, result)) →
      m.state.activeAttempt ≠ some attempt → Leaves m (.lease (.checking attempt)) (.lease .locking)
  | park {attempt : UInt64} : (∀ result, m.state.completedAttempt ≠ some (attempt, result)) →
      m.state.activeAttempt = some attempt → Leaves m (.lease (.checking attempt)) (.lease (.parked attempt))
  | refuse {generation : UInt64} : m.state.invalidateIfGeneration generation = none →
      Leaves m (.invalidate generation .comparing) (.invalidate generation (.ended false))

variable (setup : Setup)

/-- The results that a call of `lease` finds in the state. -/
inductive Finds (m : Manager) : LeasePc → Except X509Error TokenLease → Prop
  | cached {cached : CachedToken} {now : Nat} : m.state.cached = some cached → now < cached.refreshAt →
      Finds m .inspecting (tokenLease setup cached)
  | completed {attempt : UInt64} {result : Except X509Error TokenLease} :
      m.state.completedAttempt = some (attempt, result) → result ≠ .error .invalidated →
      Finds m (.checking attempt) result

/-- A step of task `i`. -/
inductive Step (m : Manager) (i : Nat) : Task → Manager → Task → List Task → Prop
  | silent {t t'} : Silent m i t t' → Step m i t m t' []
  | enter {t t'} : Enters t t' → m.monitor.holder = none →
      Step m i t (m.withMonitor { m.monitor with holder := some i }) t' []
  | queue {t monitor t'} : Queues m i t monitor t' → Step m i t (m.withMonitor monitor) t' []
  | leave {t t'} : Leaves m t t' → Step m i t m.unlock t' []
  | spawn {attempt fallback} : Step m i (.lease (.spawning attempt fallback)) m
      (.lease (.registering attempt.id)) [.attempt attempt fallback .exchanging]
  | conclude {pc result} : Finds setup m pc result →
      Step m i (.lease pc) (conclude m i result).1 (.lease (conclude m i result).2) []
  | begin {now later} : m.Stale now → m.state.activeAttempt = none →
      Step m i (.lease .inspecting) ((m.store m.state.startAttempt).observe (.begun m.nextAttempt)).unlock
        (.lease (.spawning m.nextAttempt (m.state.fallback later))) []
  | invalidate {generation s} : m.state.invalidateIfGeneration generation = some s →
      Step m i (.invalidate generation .comparing)
        ((m.store s).observe (.invalidated generation)).unlock (.invalidate generation .notifying) []
  | complete {attempt fallback exchanged now later} :
      Step m i (.attempt attempt fallback (.storing exchanged))
        (complete setup m attempt fallback exchanged now later) (.attempt attempt fallback .notifying) []

variable {setup} {m m' : Manager} {i : Nat} {t t' : Task} {choice : Choice} {started : List Task}

theorem Manager.stale_of_filter {now : Nat}
    (hstale : (m.state.cached.filter fun cached => now < cached.refreshAt) = none) : m.Stale now := by
  intro cached hcached
  rw [hcached, Option.filter_some] at hstale
  split at hstale
  · cases hstale
  · rename_i hnot
    exact Nat.le_of_not_lt (by simpa using hnot)

theorem inspect_step {now later : Nat} {pc : LeasePc} (h : inspect setup m i now later = (m', pc)) :
    Step setup m i (.lease .inspecting) m' (.lease pc) [] := by
  rw [inspect] at h
  split at h
  · rename_i cached hcached
    obtain ⟨hsome, hfresh⟩ := Option.filter_eq_some_iff.mp hcached
    have hfinds : Finds setup m .inspecting (tokenLease setup cached) :=
      .cached hsome (of_decide_eq_true hfresh)
    have hstep := Step.conclude (i := i) hfinds
    rw [h] at hstep
    exact hstep
  · rename_i hstale
    have hstale : m.Stale now := Manager.stale_of_filter hstale
    split at h
    · rename_i attempt hactive
      cases h
      exact .leave (.join hstale hactive)
    · rename_i hnone
      cases h
      exact .begin hstale hnone

theorem check_step {attempt : UInt64} {pc : LeasePc} (h : check m i attempt = (m', pc)) :
    Step setup m i (.lease (.checking attempt)) m' (.lease pc) [] := by
  rw [check] at h
  split at h
  · rename_i completed hcompleted
    obtain ⟨hsome, hid⟩ := Option.filter_eq_some_iff.mp hcompleted
    obtain rfl : completed = attempt := of_decide_eq_true hid
    cases h
    exact .leave (.invalidated hsome)
  · rename_i completed result hother hcompleted
    obtain ⟨hsome, hid⟩ := Option.filter_eq_some_iff.mp hcompleted
    obtain rfl : completed = attempt := of_decide_eq_true hid
    have hfinds : Finds setup m (.checking completed) result := .completed hsome hother
    have hstep := Step.conclude (i := i) hfinds
    rw [h] at hstep
    exact hstep
  · rename_i hnone
    have hnone : ∀ result, m.state.completedAttempt ≠ some (attempt, result) := by
      intro result hsome
      rw [hsome, Option.filter_some] at hnone
      simp at hnone
    split at h
    · rename_i hactive
      cases h
      exact .leave (.park hnone hactive)
    · rename_i hinactive
      cases h
      exact .leave (.replaced hnone hinactive)

theorem leaseStep_step {pc pc' : LeasePc} (h : leaseStep setup m i pc choice = some (m', pc', started)) :
    Step setup m i (.lease pc) m' (.lease pc') started := by
  have enter : ∀ {from' to' : LeasePc}, Enters (.lease from') (.lease to') →
      (m.monitor.acquire i).map (fun monitor => (m.withMonitor monitor, to', ([] : List Task))) =
        some (m', pc', started) → Step setup m i (.lease from') m' (.lease pc') started := by
    intro from' to' henters hmap
    obtain ⟨monitor, hacquire, heq⟩ := Option.map_eq_some_iff.mp hmap
    obtain ⟨hfree, rfl⟩ := Monitor.acquire_eq_some hacquire
    cases heq
    exact .enter henters hfree
  cases pc with
  | locking =>
      cases choice with
      | proceed => exact enter .inspect h
      | drop => cases h; exact .silent .dropLease
      | _ => cases h
  | inspecting =>
      cases choice with
      | clock now later =>
          cases h
          exact inspect_step rfl
      | _ => cases h
  | spawning attempt fallback =>
      cases choice with
      | proceed => cases h; exact .spawn
      | _ => cases h
  | registering attempt =>
      cases choice with
      | proceed => cases h; exact .queue .register
      | _ => cases h
  | relocking attempt =>
      cases choice with
      | proceed => exact enter .check h
      | drop => cases h; exact .queue .dropRelocking
      | _ => cases h
  | checking attempt =>
      cases choice with
      | proceed =>
          cases h
          exact check_step rfl
      | _ => cases h
  | parked attempt =>
      cases choice with
      | proceed =>
          rw [leaseStep] at h
          split at h
          · cases h
          · rename_i hwoken
            cases h
            exact .silent (.wake hwoken)
      | drop => cases h; exact .queue .dropParked
      | _ => cases h
  | _ => cases choice <;> cases h

theorem invalidateStep_step {generation : UInt64} {pc pc' : InvalidatePc}
    (h : invalidateStep m i generation pc choice = some (m', pc')) :
    Step setup m i (.invalidate generation pc) m' (.invalidate generation pc') [] := by
  cases pc with
  | locking =>
      cases choice with
      | proceed =>
          obtain ⟨monitor, hacquire, heq⟩ := Option.map_eq_some_iff.mp h
          obtain ⟨hfree, rfl⟩ := Monitor.acquire_eq_some hacquire
          cases heq
          exact .enter .compare hfree
      | drop => cases h; exact .silent .dropInvalidate
      | _ => cases h
  | comparing =>
      cases choice with
      | proceed =>
          rw [invalidateStep] at h
          split at h
          · rename_i hnone
            cases h
            exact .leave (.refuse hnone)
          · rename_i s hsome
            cases h
            exact .invalidate hsome
      | _ => cases h
  | notifying =>
      cases choice with
      | proceed => cases h; exact .queue .invalidate
      | _ => cases h
  | _ => cases choice <;> cases h

theorem attemptStep_step {attempt : Attempt} {fallback : Option Fallback} {pc pc' : AttemptPc}
    (h : attemptStep setup m i attempt fallback pc choice = some (m', pc')) :
    Step setup m i (.attempt attempt fallback pc) m' (.attempt attempt fallback pc') [] := by
  cases pc with
  | exchanging =>
      cases choice with
      | exchanged answer => cases h; exact .silent .exchanged
      | _ => cases h
  | completing exchanged =>
      cases choice with
      | proceed =>
          obtain ⟨monitor, hacquire, heq⟩ := Option.map_eq_some_iff.mp h
          obtain ⟨hfree, rfl⟩ := Monitor.acquire_eq_some hacquire
          cases heq
          exact .enter .store hfree
      | _ => cases h
  | storing exchanged =>
      cases choice with
      | clock now later => cases h; exact .complete
      | _ => cases h
  | notifying =>
      cases choice with
      | proceed => cases h; exact .queue .attempt
      | _ => cases h
  | ended => cases choice <;> cases h

/-- Every enabled step is one of the relation. -/
theorem act_step (h : (system setup).act m i t choice = some (m', t', started)) :
    Step setup m i t m' t' started := by
  cases t with
  | lease pc =>
      obtain ⟨⟨m'', pc', started'⟩, hstep, heq⟩ := Option.map_eq_some_iff.mp h
      cases heq
      exact leaseStep_step hstep
  | invalidate generation pc =>
      obtain ⟨⟨m'', pc'⟩, hstep, heq⟩ := Option.map_eq_some_iff.mp h
      cases heq
      exact invalidateStep_step hstep
  | attempt attempt fallback pc =>
      obtain ⟨⟨m'', pc'⟩, hstep, heq⟩ := Option.map_eq_some_iff.mp h
      cases heq
      exact attemptStep_step hstep

end Relation

end OpenaiRs.X509
