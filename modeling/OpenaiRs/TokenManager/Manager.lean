import OpenaiRs.Interleaving.System

/-!
# The token manager

`TokenManager` of `openai-rs-codex/src/direct/auth.rs`, with `DirectAuthClient::refresh`, as
calls that take one atomic operation at a time: an access to the cache, an operation on the
credential store, or a request to the token endpoint.

## Implementation notes

The credential store, the token endpoint and the clock answer as the choice of a step says; the
errors of the first two are kept as texts. A failed save leaves the store as it was, and a save
whose call was dropped can still take effect later. A call can be dropped where it awaits
something. The fields of the manager after `gate` only record what happened; no step reads them.
-/

namespace OpenaiRs.TokenManager

open Interleaving

section Sessions

/-- A verified subscription session. -/
structure StoredCodexSession where
  accessToken : String
  refreshToken : String
  expiresAt : UInt64
  accountId : String
  generation : UInt64
  deriving DecidableEq

structure RefreshResponse where
  accessToken : String
  refreshToken : Option String
  expiresIn : Option UInt64
  deriving DecidableEq

def defaultExpiresIn : UInt64 := 3600
def refreshSkew : UInt64 := 60

/-- `u64::saturating_add`. -/
def saturatingAdd (a b : UInt64) : UInt64 :=
  if a.toNat + b.toNat < UInt64.size then a + b else UInt64.ofNat (UInt64.size - 1)

/-- The session is used without a refresh. -/
def StoredCodexSession.isFresh (session : StoredCodexSession) (now : UInt64) : Bool :=
  saturatingAdd now refreshSkew < session.expiresAt

/-- The session that an answer of the token endpoint gives. -/
def StoredCodexSession.refreshed (session : StoredCodexSession) (tokens : RefreshResponse)
    (now : UInt64) : StoredCodexSession where
  accessToken := tokens.accessToken
  refreshToken := tokens.refreshToken.getD session.refreshToken
  expiresAt := saturatingAdd now (tokens.expiresIn.getD defaultExpiresIn)
  accountId := session.accountId
  generation := saturatingAdd session.generation 1

inductive DirectError where
  | configuration (message : String)
  | reauthenticationRequired
  | exchange (message : String)
  | store (message : String)
  deriving DecidableEq

def clockError : DirectError := .configuration "system clock is before Unix epoch"

end Sessions

section State

/-- A refresh token that was presented to the token endpoint, and its answer. -/
structure Exchange where
  session : StoredCodexSession
  answer : Option RefreshResponse
  deriving DecidableEq

structure Manager where
  cached : Option StoredCodexSession
  /-- The content of the credential store. -/
  stored : Option StoredCodexSession
  /-- The call that holds the refresh gate. -/
  gate : Option Nat
  /-- The exchanges, the latest first. -/
  exchanges : List Exchange
  /-- The sessions that were saved, the latest first. -/
  saved : List StoredCodexSession
  /-- The sessions that calls have returned. -/
  returned : List StoredCodexSession

def Manager.init (stored : Option StoredCodexSession) : Manager where
  cached := none
  stored := stored
  gate := none
  exchanges := []
  saved := []
  returned := []

inductive Call where
  | session
  | refreshAfterUnauthorized (failedGeneration : UInt64)
  deriving DecidableEq

/-- Why a call looks for another session. -/
inductive Purpose where
  | expiry (now : UInt64)
  | unauthorized (failedGeneration : UInt64)
  deriving DecidableEq

/-- The stored session serves the purpose as it is. -/
def Purpose.accepts : Purpose → StoredCodexSession → Bool
  | .expiry now, session => session.isFresh now
  | .unauthorized failedGeneration, session => session.generation != failedGeneration

inductive Exit where
  | returned (session : StoredCodexSession)
  | failed (error : DirectError)
  | dropped
  deriving DecidableEq

/-- Where a call stands; from `locked` to `releasing` it holds the gate. -/
inductive Pc where
  | started
  | checking (now : UInt64)
  | locking
  | locked
  | inspecting (now : UInt64)
  | comparing (failedGeneration : UInt64)
  | loading (purpose : Purpose)
  | caching (session : StoredCodexSession)
  | presenting (session : StoredCodexSession)
  | exchanging (session : StoredCodexSession)
  | stamping (session : StoredCodexSession) (tokens : RefreshResponse)
  | saving (session : StoredCodexSession)
  | storing (session : StoredCodexSession)
  | releasing (exit : Exit)
  | ended (exit : Exit)
  | detached (session : StoredCodexSession)
  deriving DecidableEq

structure Task where
  call : Call
  pc : Pc
  deriving DecidableEq

/-- What a step leaves open. -/
inductive Choice where
  | proceed
  | clock (now : UInt64)
  | noClock
  | answer (tokens : RefreshResponse)
  | fail (message : String)
  | cancel

end State

section Steps

def Manager.save (m : Manager) (session : StoredCodexSession) : Manager :=
  { m with stored := some session, saved := session :: m.saved }

/-- The answer belongs to the exchange made last. -/
def answerLast (tokens : RefreshResponse) : List Exchange → List Exchange
  | [] => []
  | exchange :: rest => { exchange with answer := some tokens } :: rest

/-- A call has ended. -/
def Manager.finish (m : Manager) : Exit → Manager
  | .returned session => { m with returned := session :: m.returned }
  | _ => m

/-- A call up to the refresh gate. -/
def approach (m : Manager) (i : Nat) (call : Call) : Pc → Choice → Option (Manager × Pc)
  | .started, choice =>
      match call, choice with
      | .session, .clock now => some (m, .checking now)
      | .session, .noClock => some (m, .ended (.failed clockError))
      | .refreshAfterUnauthorized _, .proceed => some (m, .locking)
      | _, _ => none
  | .checking now, .proceed =>
      match m.cached with
      | some session =>
          if session.isFresh now then
            some (m.finish (.returned session), .ended (.returned session))
          else some (m, .locking)
      | none => some (m, .locking)
  | .checking _, .cancel => some (m, .ended .dropped)
  | .locking, .proceed => if m.gate = none then some ({ m with gate := some i }, .locked) else none
  | .locking, .cancel => some (m, .ended .dropped)
  | _, _ => none

/-- A call behind the gate, up to the choice of the session that it returns or refreshes. -/
def select (m : Manager) (call : Call) : Pc → Choice → Option Pc
  | .locked, choice =>
      match call, choice with
      | .session, .clock now => some (.inspecting now)
      | .session, .noClock => some (.releasing (.failed clockError))
      | .refreshAfterUnauthorized failedGeneration, .proceed => some (.comparing failedGeneration)
      | _, .cancel => some (.releasing .dropped)
      | _, _ => none
  | .inspecting now, .proceed =>
      match m.cached with
      | some session => some (if session.isFresh now then .caching session else .presenting session)
      | none => some (.loading (.expiry now))
  | .inspecting _, .cancel => some (.releasing .dropped)
  | .comparing failedGeneration, .proceed =>
      match m.cached with
      | some session =>
          if session.generation != failedGeneration then some (.releasing (.returned session))
          else some (.loading (.unauthorized failedGeneration))
      | none => some (.loading (.unauthorized failedGeneration))
  | .comparing _, .cancel => some (.releasing .dropped)
  | .loading purpose, .proceed =>
      match m.stored with
      | none => some (.releasing (.failed .reauthenticationRequired))
      | some session => some (if purpose.accepts session then .caching session else .presenting session)
  | .loading _, .fail message => some (.releasing (.failed (.store message)))
  | .loading _, .cancel => some (.releasing .dropped)
  | _, _ => none

/-- The exchange of a refresh token, and the two updates behind it. -/
def exchange (m : Manager) (call : Call) : Pc → Choice → Option (Manager × Pc × List Task)
  | .caching session, .proceed =>
      some ({ m with cached := some session }, .releasing (.returned session), [])
  | .caching _, .cancel => some (m, .releasing .dropped, [])
  | .presenting session, .proceed =>
      some ({ m with exchanges := ⟨session, none⟩ :: m.exchanges }, .exchanging session, [])
  | .presenting _, .fail message => some (m, .releasing (.failed (.exchange message)), [])
  | .presenting _, .cancel => some (m, .releasing .dropped, [])
  | .exchanging session, .answer tokens =>
      some ({ m with exchanges := answerLast tokens m.exchanges }, .stamping session tokens, [])
  | .exchanging _, .fail message => some (m, .releasing (.failed (.exchange message)), [])
  | .exchanging _, .cancel => some (m, .releasing .dropped, [])
  | .stamping session tokens, .clock now => some (m, .saving (session.refreshed tokens now), [])
  | .stamping _ _, .noClock => some (m, .releasing (.failed clockError), [])
  | .saving session, .proceed => some (m.save session, .storing session, [])
  | .saving _, .fail message => some (m, .releasing (.failed (.store message)), [])
  | .saving session, .cancel => some (m, .releasing .dropped, [⟨call, .detached session⟩])
  | .storing session, .proceed =>
      some ({ m with cached := some session }, .releasing (.returned session), [])
  | .storing _, .cancel => some (m, .releasing .dropped, [])
  | .releasing exit, .proceed => some ({ m with gate := none }.finish exit, .ended exit, [])
  | .detached session, .proceed => some (m.save session, .ended .dropped, [])
  | _, _ => none

def next (m : Manager) (i : Nat) (call : Call) (pc : Pc) (choice : Choice) :
    Option (Manager × Pc × List Task) :=
  match pc with
  | .started | .checking _ | .locking => (approach m i call pc choice).map fun step => (step.1, step.2, [])
  | .locked | .inspecting _ | .comparing _ | .loading _ =>
      (select m call pc choice).map fun pc' => (m, pc', [])
  | _ => exchange m call pc choice

/-- Calls of the application, and writes to the store by others. -/
inductive Outside where
  | call (call : Call)
  | write (content : Option StoredCodexSession)

/-- The manager with any number of calls on it. -/
def system : System Manager Task Choice Outside where
  act m i t choice := (next m i t.call t.pc choice).map fun step => (step.1, ⟨t.call, step.2.1⟩, step.2.2)
  env m event :=
    match event with
    | .call call => some (m, [⟨call, .started⟩])
    | .write content => some ({ m with stored := content }, [])

def start (stored : Option StoredCodexSession) : Config Manager Task := ⟨Manager.init stored, []⟩

end Steps

section Relation

/-- The choices that end a call early. -/
def Choice.breaks : Choice → Bool
  | .noClock => true
  | .fail _ => true
  | .cancel => true
  | _ => false

/-- Where a call has not presented a refresh token. -/
def Pc.Uncommitted : Pc → Prop
  | .locked => True
  | .inspecting _ => True
  | .comparing _ => True
  | .loading _ => True
  | .caching _ => True
  | .presenting _ => True
  | _ => False

/-- Where a call has presented a refresh token and not yet updated store and cache. -/
def Pc.Committed : Pc → Prop
  | .exchanging _ => True
  | .stamping _ _ => True
  | .saving _ => True
  | .storing _ => True
  | _ => False

/-- Where a call has not reached the gate. -/
def Pc.Outer : Pc → Prop
  | .started => True
  | .checking _ => True
  | .locking => True
  | _ => False

/-- How a call gives up behind the gate before it has presented a refresh token. -/
inductive GivesUp (m : Manager) (call : Call) : Pc → Choice → Exit → Prop
  | dropped {pc choice} : pc.Uncommitted → GivesUp m call pc choice .dropped
  | clock {pc choice} : call = .session → pc.Uncommitted → GivesUp m call pc choice (.failed clockError)
  | unloaded {purpose choice message} :
      GivesUp m call (.loading purpose) choice (.failed (.store message))
  | empty {purpose choice} : m.stored = none →
      GivesUp m call (.loading purpose) choice (.failed .reauthenticationRequired)
  | unsent {session message} :
      GivesUp m call (.presenting session) (.fail message) (.failed (.exchange message))

/-- A step of call `i`. -/
inductive Step (m : Manager) (i : Nat) (call : Call) : Pc → Choice → Manager → Pc → List Task → Prop
  -- Up to the gate.
  | quit {pc choice exit} : pc.Outer → exit = .dropped ∨ (call = .session ∧ exit = .failed clockError) →
      Step m i call pc choice m (.ended exit) []
  | checking {choice now} : call = .session → Step m i call .started choice m (.checking now) []
  | usable {now choice session} : m.cached = some session → session.isFresh now = true →
      Step m i call (.checking now) choice (m.finish (.returned session)) (.ended (.returned session)) []
  | queue {pc choice} : pc.Outer → Step m i call pc choice m .locking []
  | lock {choice} : m.gate = none → Step m i call .locking choice { m with gate := some i } .locked []
  -- Behind the gate.
  | giveUp {pc choice exit} : GivesUp m call pc choice exit →
      Step m i call pc choice m (.releasing exit) []
  | inspecting {choice now} : call = .session → Step m i call .locked choice m (.inspecting now) []
  | comparing {choice failed} : call = .refreshAfterUnauthorized failed →
      Step m i call .locked choice m (.comparing failed) []
  | keep {now choice session} : m.cached = some session → session.isFresh now = true →
      Step m i call (.inspecting now) choice m (.caching session) []
  | expired {now choice session} : m.cached = some session → session.isFresh now = false →
      Step m i call (.inspecting now) choice m (.presenting session) []
  | uncached {now choice} : m.cached = none →
      Step m i call (.inspecting now) choice m (.loading (.expiry now)) []
  | newer {failed choice session} : m.cached = some session → session.generation ≠ failed →
      Step m i call (.comparing failed) choice m (.releasing (.returned session)) []
  | stale {failed choice} : (∀ session, m.cached = some session → session.generation = failed) →
      Step m i call (.comparing failed) choice m (.loading (.unauthorized failed)) []
  | accept {purpose choice session} : m.stored = some session → purpose.accepts session = true →
      Step m i call (.loading purpose) choice m (.caching session) []
  | refuse {purpose choice session} : m.stored = some session → purpose.accepts session = false →
      Step m i call (.loading purpose) choice m (.presenting session) []
  | cache {session choice} :
      Step m i call (.caching session) choice { m with cached := some session }
        (.releasing (.returned session)) []
  -- The exchange.
  | present {session choice} :
      Step m i call (.presenting session) choice
        { m with exchanges := ⟨session, none⟩ :: m.exchanges } (.exchanging session) []
  | answer {session tokens} :
      Step m i call (.exchanging session) (.answer tokens)
        { m with exchanges := answerLast tokens m.exchanges } (.stamping session tokens) []
  | stamp {session tokens choice now} :
      Step m i call (.stamping session tokens) choice m (.saving (session.refreshed tokens now)) []
  | save {session choice} :
      Step m i call (.saving session) choice (m.save session) (.storing session) []
  | store {session choice} :
      Step m i call (.storing session) choice { m with cached := some session }
        (.releasing (.returned session)) []
  | broken {pc choice exit} : pc.Committed → (∀ session, pc = .saving session → choice ≠ .cancel) →
      choice.breaks = true → (∀ session, exit ≠ .returned session) →
      Step m i call pc choice m (.releasing exit) []
  | detach {session} :
      Step m i call (.saving session) .cancel m (.releasing .dropped) [⟨call, .detached session⟩]
  | release {exit choice} :
      Step m i call (.releasing exit) choice ({ m with gate := none }.finish exit) (.ended exit) []
  | detached {session choice} :
      Step m i call (.detached session) choice (m.save session) (.ended .dropped) []

variable {m m' : Manager} {i : Nat} {call : Call} {pc pc' : Pc} {choice : Choice} {started : List Task}

theorem approach_step (h : approach m i call pc choice = some (m', pc')) :
    Step m i call pc choice m' pc' [] := by
  cases pc with
  | started =>
      cases call <;> cases choice <;> cases h
      · exact .checking rfl
      · exact .quit trivial (.inr ⟨rfl, rfl⟩)
      · exact .queue trivial
  | checking now =>
      cases choice <;> simp only [approach, reduceCtorEq] at h
      · split at h
        · split at h <;> cases h
          · exact .usable ‹_› ‹_›
          · exact .queue trivial
        · cases h
          exact .queue trivial
      · cases h
        exact .quit trivial (.inl rfl)
  | locking =>
      cases choice <;> simp only [approach, reduceCtorEq] at h
      · split at h <;> cases h
        exact .lock ‹_›
      · cases h
        exact .quit trivial (.inl rfl)
  | _ => cases h

theorem select_step (h : select m call pc choice = some pc') : Step m i call pc choice m pc' [] := by
  cases pc with
  | locked =>
      cases call <;> cases choice <;> cases h
      · exact .inspecting rfl
      · exact .giveUp (.clock rfl trivial)
      · exact .giveUp (.dropped trivial)
      · exact .comparing rfl
      · exact .giveUp (.dropped trivial)
  | inspecting now =>
      cases choice <;> simp only [select, reduceCtorEq] at h
      · split at h
        · rename_i session hcached
          cases h
          split
          · exact .keep hcached ‹_›
          · rename_i hfresh
            exact .expired hcached (by simpa using hfresh)
        · cases h
          exact .uncached ‹_›
      · cases h
        exact .giveUp (.dropped trivial)
  | comparing failed =>
      cases choice <;> simp only [select, reduceCtorEq] at h
      · split at h
        · rename_i session hcached
          split at h
          · rename_i hnewer
            cases h
            exact .newer hcached (by simpa using hnewer)
          · rename_i hstale
            cases h
            refine .stale fun other hother => ?_
            cases hcached.symm.trans hother
            simpa using hstale
        · rename_i hcached
          cases h
          exact .stale (by simp [hcached])
      · cases h
        exact .giveUp (.dropped trivial)
  | loading purpose =>
      cases choice <;> simp only [select, reduceCtorEq] at h
      · split at h
        · cases h
          exact .giveUp (.empty ‹_›)
        · rename_i session hstored
          cases h
          split
          · exact .accept hstored ‹_›
          · rename_i hrefused
            exact .refuse hstored (by simpa using hrefused)
      · cases h
        exact .giveUp .unloaded
      · cases h
        exact .giveUp (.dropped trivial)
  | _ => cases h

theorem exchange_step (h : exchange m call pc choice = some (m', pc', started)) :
    Step m i call pc choice m' pc' started := by
  cases pc with
  | caching session =>
      cases choice <;> cases h
      · exact .cache
      · exact .giveUp (.dropped trivial)
  | presenting session =>
      cases choice <;> cases h
      · exact .present
      · exact .giveUp .unsent
      · exact .giveUp (.dropped trivial)
  | exchanging session =>
      cases choice <;> cases h
      · exact .answer
      · exact .broken trivial (by simp) rfl (by simp)
      · exact .broken trivial (by simp) rfl (by simp)
  | stamping session tokens =>
      cases choice <;> cases h
      · exact .stamp
      · exact .broken trivial (by simp) rfl (by simp)
  | saving session =>
      cases choice <;> cases h
      · exact .save
      · exact .broken trivial (by simp) rfl (by simp)
      · exact .detach
  | storing session =>
      cases choice <;> cases h
      · exact .store
      · exact .broken trivial (by simp) rfl (by simp)
  | releasing exit => cases choice <;> cases h; exact .release
  | detached session => cases choice <;> cases h; exact .detached
  | _ => cases h

/-- Every enabled step is one of the relation. -/
theorem next_step (h : next m i call pc choice = some (m', pc', started)) :
    Step m i call pc choice m' pc' started := by
  have happroach : (approach m i call pc choice).map (fun step => (step.1, step.2, ([] : List Task))) =
      some (m', pc', started) → Step m i call pc choice m' pc' started := by
    intro hmap
    obtain ⟨step, hnext, heq⟩ := Option.map_eq_some_iff.mp hmap
    cases heq
    exact approach_step hnext
  have hselect : (select m call pc choice).map (fun pc' => (m, pc', ([] : List Task))) =
      some (m', pc', started) → Step m i call pc choice m' pc' started := by
    intro hmap
    obtain ⟨step, hnext, heq⟩ := Option.map_eq_some_iff.mp hmap
    cases heq
    exact select_step hnext
  cases pc with
  | started => exact happroach h
  | checking now => exact happroach h
  | locking => exact happroach h
  | locked => exact hselect h
  | inspecting now => exact hselect h
  | comparing failed => exact hselect h
  | loading purpose => exact hselect h
  | _ => exact exchange_step h

theorem act_step {t t' : Task} (h : system.act m i t choice = some (m', t', started)) :
    ∃ pc', t' = ⟨t.call, pc'⟩ ∧ Step m i t.call t.pc choice m' pc' started := by
  obtain ⟨⟨m'', pc', started'⟩, hnext, heq⟩ := Option.map_eq_some_iff.mp h
  cases heq
  exact ⟨pc', rfl, next_step hnext⟩

end Relation

end OpenaiRs.TokenManager
