import OpenaiRs.WorkloadIdentity.State

/-!
# Calls on workload-identity authentication

`token`, `invalidate_if_generation` and the detached refresh tasks of `WorkloadIdentityAuth`, as
tasks that take one step at a time.

## Implementation notes

The last access to the state in a critical section and the release of the mutex are one step:
nobody can see the state in between. The exchange, its timeout and its unwind boundary end with the
result that the choice of the step gives. A call can be dropped where it awaits something. The
history only records what happened; no step reads it.
-/

namespace OpenaiRs.WorkloadIdentity

open Interleaving

section Tasks

/-- Where a call of `token` stands; from `inspecting` to `unlocking`, and in `checking`, it holds the
mutex. -/
inductive TokenPc where
  | locking
  | inspecting
  | enabling (refreshId : UInt64)
  | unlocking (refreshId : UInt64)
  | parked (refreshId : UInt64)
  | relocking (refreshId : UInt64)
  | checking (refreshId : UInt64)
  | returned (lease : TokenLease)
  | failed (error : Error)
  | dropped
  deriving DecidableEq

/-- Where a call of `invalidate_if_generation` stands; in `comparing` it holds the mutex. -/
inductive InvalidatePc where
  | locking
  | comparing
  | notifying
  | ended (invalidated : Bool)
  | dropped
  deriving DecidableEq

/-- Where a refresh task stands; in `storing` it holds the mutex. -/
inductive RefreshPc where
  | exchanging
  | finishing (result : Except WorkloadIdentityError CachedToken)
  | storing (result : Except WorkloadIdentityError CachedToken)
  | notifying
  | ended

inductive Task where
  | token (pc : TokenPc)
  | invalidate (generation : UInt64) (pc : InvalidatePc)
  | refresh (refresh : RefreshInFlight) (pc : RefreshPc)

/-- What an exchange obtains; its generation is that of the refresh. -/
structure Exchanged where
  token : String
  expiresAt : Nat
  refreshAt : Nat

inductive Choice where
  | proceed
  | exchanged (answer : Except WorkloadIdentityError Exchanged)
  | drop

/-- What happened, the latest first. -/
inductive Observation where
  | begun (refresh : RefreshInFlight)
  | joined (call : Nat) (refreshId : UInt64)
  | finished (refresh : RefreshInFlight) (result : Except WorkloadIdentityError CachedToken)
  | invalidated (generation : UInt64)
  | returned (call : Nat) (lease : TokenLease)
  | failed (call : Nat) (error : Error)

structure Auth where
  monitor : Monitor TokenState
  /-- What `Instant::now` returns. -/
  clock : Nat
  history : List Observation

def Auth.init : Auth := ⟨.init .default, 0, []⟩

end Tasks

section Steps

namespace Auth

/-- The state behind the mutex. -/
def state (m : Auth) : TokenState := m.monitor.state

def observe (m : Auth) (o : Observation) : Auth := { m with history := o :: m.history }

/-- Writes the state. -/
def store (m : Auth) (s : TokenState) : Auth := { m with monitor := m.monitor.store s }

/-- Releases the mutex. -/
def unlock (m : Auth) : Auth := { m with monitor := m.monitor.release }

/-- `spawn_refresh`; it starts the task of the refresh. -/
def spawnRefresh (m : Auth) : Auth := (m.store m.state.beginRefresh).observe (.begun m.state.nextRefresh)

end Auth

/-- How `token` ends. -/
def TokenPc.ofResult : Except Error TokenLease → TokenPc
  | .ok lease => .returned lease
  | .error error => .failed error

def Observation.ofResult (call : Nat) : Except Error TokenLease → Observation
  | .ok lease => .returned call lease
  | .error error => .failed call error

variable (fromStr : String → Option String)

/-- The first critical section of `token`. -/
def inspect (m : Auth) (i : Nat) : Auth × TokenPc × List Task :=
  match m.state.cached.filter fun cached => m.clock < cached.expiresAt with
  | some cached =>
      let lease := tokenLease fromStr cached
      if cached.refreshAt ≤ m.clock ∧ m.state.refreshing = none then
        ((m.spawnRefresh.observe (.ofResult i lease)).unlock, .ofResult lease,
          [.refresh m.state.nextRefresh .exchanging])
      else ((m.observe (.ofResult i lease)).unlock, .ofResult lease, [])
  | none =>
      match m.state.refreshing with
      | some refreshing => (m.observe (.joined i refreshing.id), .enabling refreshing.id, [])
      | none =>
          (m.spawnRefresh.observe (.joined i m.state.nextRefresh.id), .enabling m.state.nextRefresh.id,
            [.refresh m.state.nextRefresh .exchanging])

/-- The second critical section of `token`. -/
def check (m : Auth) (i : Nat) (refreshId : UInt64) : Auth × TokenPc :=
  match m.state.completedFailure.filter fun completed => completed.1 = refreshId with
  | some (_, error) => ((m.observe (.failed i (.ofRefresh error))).unlock, .failed (.ofRefresh error))
  | none => (m.unlock, .locking)

def tokenStep (m : Auth) (i : Nat) : TokenPc → Choice → Option (Auth × TokenPc × List Task)
  | .locking, .proceed => (m.monitor.acquire i).map fun monitor => ({ m with monitor }, .inspecting, [])
  | .inspecting, .proceed => some (inspect fromStr m i)
  | .enabling refreshId, .proceed =>
      some ({ m with monitor := m.monitor.register i }, .unlocking refreshId, [])
  | .unlocking refreshId, .proceed => some (m.unlock, .parked refreshId, [])
  | .parked refreshId, .proceed =>
      if i ∈ m.monitor.waiters then none else some (m, .relocking refreshId, [])
  | .relocking refreshId, .proceed =>
      (m.monitor.acquire i).map fun monitor => ({ m with monitor }, .checking refreshId, [])
  | .checking refreshId, .proceed =>
      let (m', pc) := check m i refreshId
      some (m', pc, [])
  | .locking, .drop => some (m, .dropped, [])
  | .parked _, .drop => some ({ m with monitor := m.monitor.forget i }, .dropped, [])
  | .relocking _, .drop => some (m, .dropped, [])
  | _, _ => none

def invalidateStep (m : Auth) (i : Nat) (generation : UInt64) :
    InvalidatePc → Choice → Option (Auth × InvalidatePc)
  | .locking, .proceed => (m.monitor.acquire i).map fun monitor => ({ m with monitor }, .comparing)
  | .comparing, .proceed =>
      match m.state.invalidateIfGeneration generation with
      | none => some (m.unlock, .ended false)
      | some s => some (((m.store s).observe (.invalidated generation)).unlock, .notifying)
  | .notifying, .proceed => some ({ m with monitor := m.monitor.notifyWaiters }, .ended true)
  | .locking, .drop => some (m, .dropped)
  | _, _ => none

/-- The result of `exchange`. -/
def exchangeResult (tokenGeneration : UInt64) :
    Except WorkloadIdentityError Exchanged → Except WorkloadIdentityError CachedToken
  | .ok exchanged =>
      .ok ⟨exchanged.token, exchanged.expiresAt, exchanged.refreshAt, tokenGeneration⟩
  | .error error => .error error

def refreshStep (m : Auth) (i : Nat) (refresh : RefreshInFlight) :
    RefreshPc → Choice → Option (Auth × RefreshPc)
  | .exchanging, .exchanged answer =>
      some (m, .finishing (exchangeResult refresh.tokenGeneration answer))
  | .finishing result, .proceed =>
      (m.monitor.acquire i).map fun monitor => ({ m with monitor }, .storing result)
  | .storing result, .proceed =>
      some (((m.store (m.state.finishRefresh refresh result)).observe (.finished refresh result)).unlock,
        .notifying)
  | .notifying, .proceed => some ({ m with monitor := m.monitor.notifyWaiters }, .ended)
  | _, _ => none

def act (m : Auth) (i : Nat) : Task → Choice → Option (Auth × Task × List Task)
  | .token pc, choice =>
      (tokenStep fromStr m i pc choice).map fun (m', pc', started) => (m', .token pc', started)
  | .invalidate generation pc, choice =>
      (invalidateStep m i generation pc choice).map fun (m', pc') => (m', .invalidate generation pc', [])
  | .refresh refresh pc, choice =>
      (refreshStep m i refresh pc choice).map fun (m', pc') => (m', .refresh refresh pc', [])

/-- Somebody calls `token` or `invalidate_if_generation`, or time passes. -/
inductive Outside where
  | token
  | invalidate (generation : UInt64)
  | tick (elapsed : Nat)

def outside (m : Auth) : Outside → Auth × List Task
  | .token => (m, [.token .locking])
  | .invalidate generation => (m, [.invalidate generation .locking])
  | .tick elapsed => ({ m with clock := m.clock + elapsed }, [])

def system : System Auth Task Choice Outside where
  act := act fromStr
  env m event := some (outside m event)

abbrev Start : Config Auth Task := ⟨.init, []⟩

end Steps

section Relation

/-- The mutex and the waiters are touched and nothing else. -/
def Auth.withMonitor (m : Auth) (monitor : Monitor TokenState) : Auth := { m with monitor }

/-- Nothing is cached, or only a token that has expired. -/
def Auth.Expired (m : Auth) : Prop := ∀ cached, m.state.cached = some cached → cached.expiresAt ≤ m.clock

/-- A task that takes the mutex: where it stands before and behind. -/
inductive Enters : Task → Task → Prop
  | inspect : Enters (.token .locking) (.token .inspecting)
  | check {refreshId : UInt64} : Enters (.token (.relocking refreshId)) (.token (.checking refreshId))
  | compare {generation : UInt64} :
      Enters (.invalidate generation .locking) (.invalidate generation .comparing)
  | store {refresh : RefreshInFlight} {result : Except WorkloadIdentityError CachedToken} :
      Enters (.refresh refresh (.finishing result)) (.refresh refresh (.storing result))

/-- A step that leaves everything shared as it is. -/
inductive Silent (m : Auth) (i : Nat) : Task → Task → Prop
  | wake {refreshId : UInt64} : i ∉ m.monitor.waiters →
      Silent m i (.token (.parked refreshId)) (.token (.relocking refreshId))
  | dropLocking : Silent m i (.token .locking) (.token .dropped)
  | dropRelocking {refreshId : UInt64} : Silent m i (.token (.relocking refreshId)) (.token .dropped)
  | dropInvalidate {generation : UInt64} :
      Silent m i (.invalidate generation .locking) (.invalidate generation .dropped)
  | exchanged {refresh : RefreshInFlight} {answer : Except WorkloadIdentityError Exchanged} :
      Silent m i (.refresh refresh .exchanging)
        (.refresh refresh (.finishing (exchangeResult refresh.tokenGeneration answer)))

/-- A task that is about to wake the waiters, and what it is behind that. -/
inductive Notifies : Task → Task → Prop
  | invalidate {generation : UInt64} :
      Notifies (.invalidate generation .notifying) (.invalidate generation (.ended true))
  | refresh {refresh : RefreshInFlight} : Notifies (.refresh refresh .notifying) (.refresh refresh .ended)

variable (fromStr : String → Option String)

/-- A step of task `i`. -/
inductive Step (m : Auth) (i : Nat) : Task → Auth → Task → List Task → Prop
  | silent {t t'} : Silent m i t t' → Step m i t m t' []
  | enter {t t'} : Enters t t' → m.monitor.holder = none →
      Step m i t (m.withMonitor { m.monitor with holder := some i }) t' []
  | notify {t t'} : Notifies t t' → Step m i t (m.withMonitor m.monitor.notifyWaiters) t' []
  | enable {refreshId} : Step m i (.token (.enabling refreshId)) (m.withMonitor (m.monitor.register i))
      (.token (.unlocking refreshId)) []
  | park {refreshId} : Step m i (.token (.unlocking refreshId)) m.unlock (.token (.parked refreshId)) []
  | dropParked {refreshId} : Step m i (.token (.parked refreshId)) (m.withMonitor (m.monitor.forget i))
      (.token .dropped) []
  -- `token` with a cached token.
  | lease {cached} : m.state.cached = some cached → m.clock < cached.expiresAt →
      Step m i (.token .inspecting) (m.observe (.ofResult i (tokenLease fromStr cached))).unlock
        (.token (.ofResult (tokenLease fromStr cached))) []
  | leaseAndBegin {cached} : m.state.cached = some cached → m.clock < cached.expiresAt →
      cached.refreshAt ≤ m.clock → m.state.refreshing = none →
      Step m i (.token .inspecting)
        (m.spawnRefresh.observe (.ofResult i (tokenLease fromStr cached))).unlock
        (.token (.ofResult (tokenLease fromStr cached))) [.refresh m.state.nextRefresh .exchanging]
  -- `token` without one.
  | join {refreshing} : m.Expired → m.state.refreshing = some refreshing →
      Step m i (.token .inspecting) (m.observe (.joined i refreshing.id))
        (.token (.enabling refreshing.id)) []
  | begin : m.Expired → m.state.refreshing = none →
      Step m i (.token .inspecting) (m.spawnRefresh.observe (.joined i m.state.nextRefresh.id))
        (.token (.enabling m.state.nextRefresh.id)) [.refresh m.state.nextRefresh .exchanging]
  | fail {refreshId error} : m.state.completedFailure = some (refreshId, error) →
      Step m i (.token (.checking refreshId)) (m.observe (.failed i (.ofRefresh error))).unlock
        (.token (.failed (.ofRefresh error))) []
  | retry {refreshId} : (∀ error, m.state.completedFailure ≠ some (refreshId, error)) →
      Step m i (.token (.checking refreshId)) m.unlock (.token .locking) []
  -- `invalidate_if_generation`.
  | refuse {generation} : m.state.invalidateIfGeneration generation = none →
      Step m i (.invalidate generation .comparing) m.unlock (.invalidate generation (.ended false)) []
  | invalidate {generation s} : m.state.invalidateIfGeneration generation = some s →
      Step m i (.invalidate generation .comparing)
        ((m.store s).observe (.invalidated generation)).unlock (.invalidate generation .notifying) []
  -- `finish_refresh`.
  | finish {refresh result} : Step m i (.refresh refresh (.storing result))
      ((m.store (m.state.finishRefresh refresh result)).observe (.finished refresh result)).unlock
        (.refresh refresh .notifying) []

variable {fromStr} {m m' : Auth} {i : Nat} {t t' : Task} {choice : Choice} {started : List Task}

theorem inspect_step {pc : TokenPc} (h : inspect fromStr m i = (m', pc, started)) :
    Step fromStr m i (.token .inspecting) m' (.token pc) started := by
  rw [inspect] at h
  split at h
  · rename_i cached hcached
    obtain ⟨hsome, hfresh⟩ := Option.filter_eq_some_iff.mp hcached
    simp only at h
    split at h
    · rename_i hrefresh
      cases h
      exact .leaseAndBegin hsome (of_decide_eq_true hfresh) hrefresh.1 hrefresh.2
    · cases h
      exact .lease hsome (of_decide_eq_true hfresh)
  · rename_i hstale
    have hexpired : m.Expired := by
      intro cached hcached
      rw [hcached, Option.filter_some] at hstale
      split at hstale
      · cases hstale
      · rename_i hnot
        exact Nat.le_of_not_lt (by simpa using hnot)
    split at h
    · rename_i refreshing hrefreshing
      cases h
      exact .join hexpired hrefreshing
    · rename_i hnone
      cases h
      exact .begin hexpired hnone

theorem check_step {refreshId : UInt64} {pc : TokenPc} (h : check m i refreshId = (m', pc)) :
    Step fromStr m i (.token (.checking refreshId)) m' (.token pc) [] := by
  rw [check] at h
  split at h
  · rename_i completedId error hcompleted
    cases h
    obtain ⟨hsome, hid⟩ := Option.filter_eq_some_iff.mp hcompleted
    obtain rfl : completedId = refreshId := of_decide_eq_true hid
    exact .fail hsome
  · rename_i hnone
    cases h
    refine .retry fun error hsome => ?_
    rw [hsome, Option.filter_some] at hnone
    simp at hnone

theorem tokenStep_step {pc pc' : TokenPc} (h : tokenStep fromStr m i pc choice = some (m', pc', started)) :
    Step fromStr m i (.token pc) m' (.token pc') started := by
  have enter : ∀ {from' to' : TokenPc}, Enters (.token from') (.token to') →
      (m.monitor.acquire i).map (fun monitor => ({ m with monitor }, to', ([] : List Task))) =
        some (m', pc', started) → Step fromStr m i (.token from') m' (.token pc') started := by
    intro from' to' henters hmap
    obtain ⟨monitor, hacquire, heq⟩ := Option.map_eq_some_iff.mp hmap
    obtain ⟨hfree, rfl⟩ := Monitor.acquire_eq_some hacquire
    cases heq
    exact .enter henters hfree
  cases pc with
  | locking =>
      cases choice with
      | proceed => exact enter .inspect h
      | drop => cases h; exact .silent .dropLocking
      | _ => cases h
  | inspecting =>
      cases choice with
      | proceed => exact inspect_step (Option.some.inj h)
      | _ => cases h
  | enabling refreshId =>
      cases choice with
      | proceed => cases h; exact .enable
      | _ => cases h
  | unlocking refreshId =>
      cases choice with
      | proceed => cases h; exact .park
      | _ => cases h
  | parked refreshId =>
      cases choice with
      | proceed =>
          rw [tokenStep] at h
          split at h
          · cases h
          · rename_i hwoken
            cases h
            exact .silent (.wake hwoken)
      | drop => cases h; exact .dropParked
      | _ => cases h
  | relocking refreshId =>
      cases choice with
      | proceed => exact enter .check h
      | drop => cases h; exact .silent .dropRelocking
      | _ => cases h
  | checking refreshId =>
      cases choice with
      | proceed =>
          cases h
          exact check_step rfl
      | _ => cases h
  | _ => cases choice <;> cases h

theorem invalidateStep_step {generation : UInt64} {pc pc' : InvalidatePc}
    (h : invalidateStep m i generation pc choice = some (m', pc')) :
    Step fromStr m i (.invalidate generation pc) m' (.invalidate generation pc') [] := by
  cases pc with
  | locking =>
      cases choice with
      | proceed =>
          obtain ⟨monitor, hacquire, heq⟩ := Option.map_eq_some_iff.mp h
          obtain ⟨hfree, rfl⟩ := Monitor.acquire_eq_some hacquire
          cases heq
          exact .enter .compare hfree
      | drop => cases h; exact .silent .dropInvalidate
      | _ => cases h
  | comparing =>
      cases choice with
      | proceed =>
          rw [invalidateStep] at h
          split at h
          · rename_i hnone
            cases h
            exact .refuse hnone
          · rename_i s hsome
            cases h
            exact .invalidate hsome
      | _ => cases h
  | notifying =>
      cases choice with
      | proceed => cases h; exact .notify .invalidate
      | _ => cases h
  | _ => cases choice <;> cases h

theorem refreshStep_step {refresh : RefreshInFlight} {pc pc' : RefreshPc}
    (h : refreshStep m i refresh pc choice = some (m', pc')) :
    Step fromStr m i (.refresh refresh pc) m' (.refresh refresh pc') [] := by
  cases pc with
  | exchanging =>
      cases choice with
      | exchanged answer => cases h; exact .silent .exchanged
      | _ => cases h
  | finishing result =>
      cases choice with
      | proceed =>
          obtain ⟨monitor, hacquire, heq⟩ := Option.map_eq_some_iff.mp h
          obtain ⟨hfree, rfl⟩ := Monitor.acquire_eq_some hacquire
          cases heq
          exact .enter .store hfree
      | _ => cases h
  | storing result =>
      cases choice with
      | proceed => cases h; exact .finish
      | _ => cases h
  | notifying =>
      cases choice with
      | proceed => cases h; exact .notify .refresh
      | _ => cases h
  | ended => cases choice <;> cases h

/-- Every enabled step is one of the relation. -/
theorem act_step (h : (system fromStr).act m i t choice = some (m', t', started)) :
    Step fromStr m i t m' t' started := by
  cases t with
  | token pc =>
      obtain ⟨⟨m'', pc', started'⟩, hstep, heq⟩ := Option.map_eq_some_iff.mp h
      cases heq
      exact tokenStep_step hstep
  | invalidate generation pc =>
      obtain ⟨⟨m'', pc'⟩, hstep, heq⟩ := Option.map_eq_some_iff.mp h
      cases heq
      exact invalidateStep_step hstep
  | refresh refresh pc =>
      obtain ⟨⟨m'', pc'⟩, hstep, heq⟩ := Option.map_eq_some_iff.mp h
      cases heq
      exact refreshStep_step hstep

/-- A call that has just been made. -/
inductive Arrives : Task → Prop
  | token : Arrives (.token .locking)
  | invalidate {generation : UInt64} : Arrives (.invalidate generation .locking)

/-- Calls arrive and time passes, and nothing else changes. -/
theorem env_quiet {event : Outside} (h : (system fromStr).env m event = some (m', started)) :
    m'.monitor = m.monitor ∧ m'.history = m.history ∧ m.clock ≤ m'.clock ∧
      ∀ u ∈ started, Arrives u := by
  cases event with
  | token =>
      cases h
      refine ⟨rfl, rfl, Nat.le_refl _, fun u hu => ?_⟩
      rw [List.mem_singleton.mp hu]
      exact .token
  | invalidate generation =>
      cases h
      refine ⟨rfl, rfl, Nat.le_refl _, fun u hu => ?_⟩
      rw [List.mem_singleton.mp hu]
      exact .invalidate
  | tick elapsed =>
      cases h
      exact ⟨rfl, rfl, Nat.le_add_right _ _, by simp⟩

end Relation

end OpenaiRs.WorkloadIdentity
