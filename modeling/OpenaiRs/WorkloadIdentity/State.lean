import OpenaiRs.Interleaving.Monitor
import OpenaiRs.Rust.Str

/-!
# The state of workload-identity authentication

`TokenState` of `openai-rs-client/src/workload_identity.rs` and what the critical sections of
`WorkloadIdentityAuth` do with it.

## Implementation notes

An `Instant` is a natural number. `HeaderValue::from_str` is the parameter `fromStr`.
-/

namespace OpenaiRs.WorkloadIdentity

open Interleaving Rust

section Data

/-- A bounded prefix of a response body. -/
structure BodyPreview where
  bytes : Bytes
  truncated : Bool
  deriving DecidableEq

inductive WorkloadIdentityError where
  | deadlineExceeded
  | subjectToken
  | transport
  | oauthRejected (status : Nat) (body : BodyPreview)
  | exchangeRejected (status : Nat) (body : BodyPreview)
  | invalidResponse (reason : String) (body : BodyPreview)
  deriving DecidableEq

/-- The errors of the client that `token` returns. -/
inductive Error where
  | deadlineExceeded
  | workloadIdentity (error : WorkloadIdentityError)
  deriving DecidableEq

/-- What a caller gets for the failure of a refresh. -/
def Error.ofRefresh : WorkloadIdentityError → Error
  | .deadlineExceeded => .deadlineExceeded
  | error => .workloadIdentity error

structure TokenLease where
  header : String
  generation : Option UInt64
  deriving DecidableEq

structure CachedToken where
  token : String
  expiresAt : Nat
  refreshAt : Nat
  generation : UInt64
  deriving DecidableEq

structure RefreshInFlight where
  id : UInt64
  generation : UInt64
  tokenGeneration : UInt64
  deriving DecidableEq

structure TokenState where
  cached : Option CachedToken
  generation : UInt64
  nextRefreshId : UInt64
  nextTokenGeneration : UInt64
  refreshing : Option RefreshInFlight
  completedFailure : Option (UInt64 × WorkloadIdentityError)
  deriving DecidableEq

def TokenState.default : TokenState where
  cached := none
  generation := 0
  nextRefreshId := 0
  nextTokenGeneration := 0
  refreshing := none
  completedFailure := none

end Data

section Sections

variable (fromStr : String → Option String)

/-- `Result::err`. -/
def err {ε α : Type} : Except ε α → Option ε
  | .ok _ => none
  | .error error => some error

def tokenLease (token : CachedToken) : Except Error TokenLease :=
  match fromStr ("Bearer " ++ token.token) with
  | some header => .ok ⟨header, some token.generation⟩
  | none =>
      .error (.workloadIdentity (.invalidResponse
        "cached access token cannot be encoded as an HTTP header" ⟨[], false⟩))

namespace TokenState

/-- The refresh that `begin_refresh` puts into the slot. -/
def nextRefresh (s : TokenState) : RefreshInFlight where
  id := s.nextRefreshId + 1
  generation := s.generation
  tokenGeneration := s.nextTokenGeneration + 1

def beginRefresh (s : TokenState) : TokenState :=
  { s with
    nextRefreshId := s.nextRefreshId + 1
    nextTokenGeneration := s.nextTokenGeneration + 1
    refreshing := some s.nextRefresh
    completedFailure := none }

/-- The critical section of `invalidate_if_generation`; `none` where it returns `false`. -/
def invalidateIfGeneration (s : TokenState) (generation : UInt64) : Option TokenState :=
  if s.cached.map CachedToken.generation ≠ some generation then none
  else
    some { s with
      generation := s.generation + 1
      cached := none
      refreshing := s.refreshing.filter fun refresh => refresh.generation ≠ s.generation
      completedFailure := none }

/-- The critical section of `finish_refresh`. -/
def finishRefresh (s : TokenState) (refresh : RefreshInFlight)
    (result : Except WorkloadIdentityError CachedToken) : TokenState :=
  let cached :=
    if s.generation = refresh.generation then result.toOption.or s.cached else s.cached
  if s.refreshing.any fun current => current.id = refresh.id then
    { s with
      cached := cached
      refreshing := none
      completedFailure := (err result).map fun error => (refresh.id, error) }
  else { s with cached := cached }

variable {s s' : TokenState} {generation : UInt64} {refresh : RefreshInFlight}
  {result : Except WorkloadIdentityError CachedToken}

@[simp] theorem generation_beginRefresh : s.beginRefresh.generation = s.generation := rfl
@[simp] theorem refreshing_beginRefresh : s.beginRefresh.refreshing = some s.nextRefresh := rfl
@[simp] theorem generation_nextRefresh : s.nextRefresh.generation = s.generation := rfl

theorem invalidate_eq_some (h : s.invalidateIfGeneration generation = some s') :
    (∃ cached, s.cached = some cached ∧ cached.generation = generation) ∧
      s' = { s with
        generation := s.generation + 1
        cached := none
        refreshing := s.refreshing.filter fun refresh => refresh.generation ≠ s.generation
        completedFailure := none } := by
  rw [invalidateIfGeneration] at h
  split at h
  · cases h
  · rename_i hcached
    constructor
    · exact Option.map_eq_some_iff.mp (Decidable.not_not.mp hcached)
    · exact (Option.some.inj h).symm

/-- An invalidation leaves the slot as it is or clears it. -/
theorem refreshing_invalidate (h : s.invalidateIfGeneration generation = some s') :
    s'.refreshing = s.refreshing ∨ s'.refreshing = none := by
  obtain ⟨-, rfl⟩ := invalidate_eq_some h
  cases hslot : s.refreshing with
  | none => exact .inr rfl
  | some current =>
      simp only [Option.filter_some]
      split
      · exact .inl rfl
      · exact .inr rfl

@[simp] theorem generation_finishRefresh :
    (s.finishRefresh refresh result).generation = s.generation := by
  rw [finishRefresh]
  split <;> rfl

@[simp] theorem nextRefreshId_finishRefresh :
    (s.finishRefresh refresh result).nextRefreshId = s.nextRefreshId := by
  rw [finishRefresh]
  split <;> rfl

@[simp] theorem nextTokenGeneration_finishRefresh :
    (s.finishRefresh refresh result).nextTokenGeneration = s.nextTokenGeneration := by
  rw [finishRefresh]
  split <;> rfl

theorem cached_finishRefresh : (s.finishRefresh refresh result).cached =
    if s.generation = refresh.generation then result.toOption.or s.cached else s.cached := by
  rw [finishRefresh]
  split <;> rfl

/-- The slot after a completion: it stays, or it was held by the refresh of this number. -/
theorem refreshing_finishRefresh (s : TokenState) (refresh : RefreshInFlight)
    (result : Except WorkloadIdentityError CachedToken) :
    ((s.finishRefresh refresh result).refreshing = s.refreshing ∧
        (s.finishRefresh refresh result).completedFailure = s.completedFailure ∧
        ∀ current, s.refreshing = some current → current.id ≠ refresh.id) ∨
      ((s.finishRefresh refresh result).refreshing = none ∧
        (∃ current, s.refreshing = some current ∧ current.id = refresh.id) ∧
        (s.finishRefresh refresh result).completedFailure =
          (err result).map fun error => (refresh.id, error)) := by
  rw [finishRefresh]
  split
  · rename_i hslot
    refine .inr ⟨rfl, ?_, rfl⟩
    cases hrefreshing : s.refreshing with
    | none => simp [hrefreshing] at hslot
    | some current => exact ⟨current, rfl, by simpa [hrefreshing] using hslot⟩
  · rename_i hslot
    refine .inl ⟨rfl, rfl, ?_⟩
    intro current hcurrent hid
    simp [hcurrent, hid] at hslot

end TokenState

end Sections

end OpenaiRs.WorkloadIdentity
