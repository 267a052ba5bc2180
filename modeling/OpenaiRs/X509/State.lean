import OpenaiRs.Interleaving.Monitor

/-!
# The state of the X.509 token manager

`TokenState` of `openai-rs-client/src/x509.rs` and what the critical sections of `X509TokenManager` do
with it.

## Implementation notes

An `Instant` and a `Duration` are natural numbers, in nanoseconds. `HeaderValue::from_str` is the
parameter `fromStr`, and half of a lifetime, which the source computes in floating point, is the
parameter `half`. A critical section that asks for the time twice gets two readings.
-/

namespace OpenaiRs.X509

section Data

inductive X509Error where
  | invalidIdentity
  | invalidConfiguration
  | invalidSelector
  | exchangeTimeout
  | exchangeTransport
  | oauth (status : Nat) (code : Option String)
  | exchangeStatus (status : Nat)
  | invalidExchangeResponse
  | invalidAccessToken
  | invalidTokenType
  | invalidTokenLifetime
  | invalidated
  | api (message : String)
  | apiResponseBody (status : Nat)
  | apiBodyTooLarge
  deriving DecidableEq

def requestTimeout : Nat := 408
def conflict : Nat := 409
def tooManyRequests : Nat := 429

def X509Error.isRetryable : X509Error → Bool
  | .exchangeTimeout => true
  | .exchangeTransport => true
  | .exchangeStatus status =>
      status = requestTimeout || status = conflict || status = tooManyRequests || 500 ≤ status
  | _ => false

structure TokenLease where
  header : String
  generation : UInt64
  deriving DecidableEq

structure CachedToken where
  token : String
  generation : UInt64
  expiresAt : Nat
  refreshAt : Nat
  deriving DecidableEq

structure ExchangedToken where
  token : String
  lifetime : Nat
  startedAt : Nat

/-- The cached token that an attempt found, with its generation and its expiry. -/
structure Fallback where
  token : String
  generation : UInt64
  expiresAt : Nat

structure TokenState where
  generation : UInt64
  nextAttempt : UInt64
  activeAttempt : Option UInt64
  completedAttempt : Option (UInt64 × Except X509Error TokenLease)
  cached : Option CachedToken

def TokenState.default : TokenState where
  generation := 0
  nextAttempt := 0
  activeAttempt := none
  completedAttempt := none
  cached := none

/-- What `X509TokenManager` is made with. -/
structure Setup where
  fromStr : String → Option String
  half : Nat → Nat
  refreshBuffer : Nat

end Data

section Sections

variable (setup : Setup)

/-- `token_lease`, on the two fields that it reads. -/
def leaseOf (token : String) (generation : UInt64) : Except X509Error TokenLease :=
  match setup.fromStr ("Bearer " ++ token) with
  | some header => .ok ⟨header, generation⟩
  | none => .error .invalidAccessToken

def tokenLease (cached : CachedToken) : Except X509Error TokenLease :=
  leaseOf setup cached.token cached.generation

/-- Half a second. -/
def retryDelay : Nat := 500000000

namespace TokenState

/-- The state in which an attempt starts. -/
def startAttempt (s : TokenState) : TokenState :=
  { s with
    nextAttempt := s.nextAttempt + 1
    activeAttempt := some (s.nextAttempt + 1)
    completedAttempt := none }

/-- The fallback of an attempt that starts in this state. -/
def fallback (s : TokenState) (now : Nat) : Option Fallback :=
  s.cached.bind fun cached =>
    if now < cached.expiresAt then some ⟨cached.token, cached.generation, cached.expiresAt⟩ else none

/-- The token of a successful exchange, with its new generation. -/
def obtain (s : TokenState) (exchanged : ExchangedToken) : CachedToken :=
  let expiresAt := exchanged.startedAt + exchanged.lifetime
  ⟨exchanged.token, s.generation + 1, expiresAt,
    expiresAt - min setup.refreshBuffer (setup.half exchanged.lifetime)⟩

/-- The fallback, for another half second. -/
def retain (fallback : Fallback) (later : Nat) : CachedToken :=
  ⟨fallback.token, fallback.generation, fallback.expiresAt, min (later + retryDelay) fallback.expiresAt⟩

/-- What a current attempt makes of its exchange: the state, and the result for its waiters. -/
def settle (s : TokenState) (fallback : Option Fallback) (exchanged : Except X509Error ExchangedToken)
    (now later : Nat) : TokenState × Except X509Error TokenLease :=
  match exchanged with
  | .ok token =>
      if token.startedAt + token.lifetime ≤ now then
        ({ s with cached := none }, .error .invalidTokenLifetime)
      else
        ({ s with generation := s.generation + 1, cached := some (s.obtain setup token) },
          tokenLease setup (s.obtain setup token))
  | .error error =>
      match fallback.filter fun fallback => error.isRetryable && decide (now < fallback.expiresAt) with
      | some fallback => ({ s with cached := some (retain fallback later) }, tokenLease setup (retain fallback later))
      | none => (s, .error error)

/-- The attempt is in the slot and nothing was invalidated or obtained since it started. -/
def IsCurrent (s : TokenState) (attempt generation : UInt64) : Prop :=
  s.generation = generation ∧ s.activeAttempt = some attempt

instance decidableIsCurrent (s : TokenState) (attempt generation : UInt64) :
    Decidable (s.IsCurrent attempt generation) :=
  inferInstanceAs (Decidable (_ ∧ _))

/-- What an attempt makes of its exchange. -/
def outcome (s : TokenState) (attempt generation : UInt64) (fallback : Option Fallback)
    (exchanged : Except X509Error ExchangedToken) (now later : Nat) : TokenState × Except X509Error TokenLease :=
  if s.IsCurrent attempt generation then s.settle setup fallback exchanged now later
  else (s, .error .invalidated)

/-- The attempt leaves the slot, and its waiters find the result. -/
def finishAttempt (s : TokenState) (attempt : UInt64) (result : Except X509Error TokenLease) : TokenState :=
  { s with
    activeAttempt := if s.activeAttempt = some attempt then none else s.activeAttempt
    completedAttempt := some (attempt, result) }

/-- The critical section of `complete_attempt`. -/
def completeAttempt (s : TokenState) (attempt generation : UInt64) (fallback : Option Fallback)
    (exchanged : Except X509Error ExchangedToken) (now later : Nat) : TokenState :=
  let (s, result) := s.outcome setup attempt generation fallback exchanged now later
  s.finishAttempt attempt result

/-- The critical section of `invalidate_if_generation`; `none` where it returns `false`. -/
def invalidateIfGeneration (s : TokenState) (generation : UInt64) : Option TokenState :=
  if s.cached.map CachedToken.generation ≠ some generation then none
  else
    some { s with
      generation := s.generation + 1
      cached := none
      activeAttempt := none
      completedAttempt := none }

end TokenState

end Sections

end OpenaiRs.X509
