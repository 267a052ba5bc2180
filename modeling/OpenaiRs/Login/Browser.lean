import OpenaiRs.Login.Callback
import OpenaiRs.TokenManager.Manager

/-!
# The browser login

`BrowserLogin::complete_inner` of `openai-rs-codex/src/direct/auth.rs`: connections are accepted until one is a
callback; its code is exchanged for tokens where its state is the one of the login, and a session is saved where the
ID token is verified.

## Implementation notes

What other parties answer are the fields of `Services`: the token and the key endpoint, the clock at its two
readings, the credential store and the page that is written last. A login that is cancelled or timed out has done a
prefix of what it would have done.
-/

namespace OpenaiRs.Login

open Rust Rust.Chars
open IdToken (Crates JsonWebKeySet OidcVerifier secureEqual)
open TokenManager (StoredCodexSession saturatingAdd defaultExpiresIn)

section Definitions

def clientId : String := "app_EMoamEEZ73f0CkXaXp7hrann"
def issuer : String := "https://auth.openai.com"

structure TokenResponse where
  idToken : String
  accessToken : String
  refreshToken : Option String
  expiresIn : Option UInt64

structure Services (E : Type) where
  /-- The token endpoint, for a code, a redirect URI and a code verifier. -/
  exchangeCode : Chars → Chars → Chars → Except E TokenResponse
  jwks : Except E JsonWebKeySet
  /-- The clock when the ID token is verified, and when the session is built. -/
  verifiedAt : Option UInt64
  builtAt : Option UInt64
  save : StoredCodexSession → Except E Unit
  /-- The page of a successful login. -/
  writeHtml : Except (DirectError E) Unit

/-- What a login does that others see. -/
inductive Effect where
  | writeNotFound
  | writeHtml (success : Bool)
  | exchangeCode (code redirectUri verifier : Chars)
  | fetchJwks
  | save (session : StoredCodexSession)
  deriving DecidableEq

variable {E : Type}

/-- `now_epoch`. -/
def nowEpoch (clock : Option UInt64) : Except (DirectError E) UInt64 :=
  match clock with
  | none => .error (.configuration "system clock is before Unix epoch")
  | some now => .ok now

/-- The session of an answer of the token endpoint, under the keys of the issuer. -/
def initialSession (crates : Crates) (services : Services E) (nonce : String) (tokens : TokenResponse)
    (jwks : JsonWebKeySet) : Except (DirectError E) StoredCodexSession := do
  let verifier ← (OidcVerifier.new issuer clientId jwks).mapError .idToken
  let now ← nowEpoch services.verifiedAt
  let account ← (verifier.verify crates (utf8 tokens.idToken) nonce now).mapError .idToken
  match tokens.refreshToken with
  | none => .error (.oauth "initial token response omitted refresh token")
  | some refreshToken =>
      let now ← nowEpoch services.builtAt
      .ok ⟨tokens.accessToken, refreshToken, saturatingAdd now (tokens.expiresIn.getD defaultExpiresIn), account.asStr, 0⟩

/-- A code is exchanged, and the session that it gives is saved. -/
def establish (crates : Crates) (services : Services E) (nonce : String) (code redirectUri verifier : Chars) :
    List Effect × Except (DirectError E) StoredCodexSession :=
  let exchanged := Effect.exchangeCode code redirectUri verifier
  match services.exchangeCode code redirectUri verifier with
  | .error error => ([exchanged], .error (.service error))
  | .ok tokens =>
      match services.jwks with
      | .error error => ([exchanged, .fetchJwks], .error (.service error))
      | .ok jwks =>
          match initialSession crates services nonce tokens jwks with
          | .error error => ([exchanged, .fetchJwks], .error error)
          | .ok session =>
              match services.save session with
              | .error error => ([exchanged, .fetchJwks, .save session], .error (.service error))
              | .ok () => ([exchanged, .fetchJwks, .save session], .ok session)

/-- What the listener gives. -/
inductive Incoming where
  | connection (isLoopback : Bool) (reads : List Read)
  | failed (error : String)

structure RedirectUri where
  asStr : Chars
  hostStr : Option Chars
  port : Option UInt16

structure BrowserLogin where
  redirectUri : RedirectUri
  verifier : Chars
  state : Chars
  nonce : String

def RedirectUri.expectedHost (uri : RedirectUri) : Option Chars :=
  uri.hostStr.bind fun host => uri.port.map fun port => host ++ ':' :: decimal port.toNat

variable (parseUrl : Chars → Option Url)

/-- The connections up to the one with the callback; `none` while one is waited for. -/
def acceptCallback (expectedHost : Chars) :
    List Incoming → List Effect × Option (Except (DirectError E) CallbackParams)
  | [] => ([], none)
  | .failed error :: _ => ([], some (.error (.oauth ("callback accept failed: " ++ error))))
  | .connection isLoopback reads :: rest =>
      if isLoopback then
        match (readCallback parseUrl expectedHost reads : Option (Callback E)) with
        | none => ([], none)
        | some (.ok (some callback)) => ([], some (.ok callback))
        | some (.ok none) =>
            let accepted := acceptCallback expectedHost rest
            (.writeNotFound :: accepted.1, accepted.2)
        | some (.error error) => ([.writeHtml false], some (.error error))
      else
        let accepted := acceptCallback expectedHost rest
        (.writeNotFound :: accepted.1, accepted.2)

/-- The UTF-8 bytes of a text. -/
def asBytes (text : Chars) : Bytes := utf8 (String.ofList text)

/-- What follows the callback. -/
def BrowserLogin.conclude (login : BrowserLogin) (crates : Crates) (services : Services E) (callback : CallbackParams) :
    List Effect × Except (DirectError E) StoredCodexSession :=
  if !secureEqual crates (asBytes callback.state) (asBytes login.state) then
    ([.writeHtml false], .error (.oauth "callback state mismatch"))
  else if callback.error || callback.code.isEmpty then
    ([.writeHtml false], .error (.oauth "authorization was not granted"))
  else
    match establish crates services login.nonce callback.code login.redirectUri.asStr login.verifier with
    | (effects, .error error) => (effects ++ [.writeHtml false], .error error)
    | (effects, .ok session) =>
        match services.writeHtml with
        | .error error => (effects ++ [.writeHtml true], .error error)
        | .ok () => (effects ++ [.writeHtml true], .ok session)

/-- `BrowserLogin::complete_inner`; `none` while a connection is waited for. -/
def BrowserLogin.completeInner (login : BrowserLogin) (crates : Crates) (services : Services E)
    (incoming : List Incoming) : List Effect × Option (Except (DirectError E) StoredCodexSession) :=
  match login.redirectUri.expectedHost with
  | none => ([], some (.error (.configuration "invalid loopback redirect URI")))
  | some expectedHost =>
      match acceptCallback parseUrl expectedHost incoming with
      | (effects, none) => (effects, none)
      | (effects, some (.error error)) => (effects, some (.error error))
      | (effects, some (.ok callback)) =>
          let concluded := login.conclude crates services callback
          (effects ++ concluded.1, some concluded.2)

end Definitions

end OpenaiRs.Login
