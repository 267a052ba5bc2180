import OpenaiRs.Login.Browser
import OpenaiRs.Rust.Result

/-!
# What a browser login accepts

A login exchanges at most one code. It is the code of the first connection that is no other request: one from this
machine, whose request is addressed to the login's own host and carries its state.
-/

namespace OpenaiRs.Login

open Rust Rust.Chars
open IdToken (Crates JsonWebKeySet OidcVerifier secureEqual)
open TokenManager (StoredCodexSession saturatingAdd defaultExpiresIn)

section Requests

/-- The headers up to the first empty line. -/
def headerBlock (lines : List Chars) : List Chars := lines.takeWhile fun line => !(line.isEmpty || line = ['\r'])

/-- The value of a line that is a `Host` header. -/
def hostValue (line : Chars) : Option Chars :=
  match splitOnce ':' line with
  | none => none
  | some (name, value) => if isHostName name then some (trim value) else none

/-- The values of the pairs with a key. -/
def valuesOf (key : String) (pairs : List (Chars × Chars)) : List Chars :=
  (pairs.filter (·.1 = key.toList)).map Prod.snd

/-- What a callback reads from the pairs of its query. -/
def PairsGive (pairs : List (Chars × Chars)) (params : CallbackParams) : Prop :=
  valuesOf "state" pairs = [params.state] ∧
    (valuesOf "code" pairs = [params.code] ∨ valuesOf "code" pairs = [] ∧ params.code = []) ∧
    params.error = pairs.any (·.1 = "error".toList)

/-- The request calls back with these parameters. -/
structure IsCallback (parseUrl : Chars → Option Url) (expectedHost : Chars) (request : Bytes)
    (params : CallbackParams) : Prop where
  text : fromUtf8 request = .ok request
  parts : ∃ requestLine headers target url, lines (fromUtf8Lossy request) = requestLine :: headers ∧
    splitAsciiWhitespace requestLine = ["GET".toList, target, "HTTP/1.1".toList] ∧
    (∀ line ∈ headerBlock headers, (splitOnce ':' line).isSome) ∧
    (headerBlock headers).filterMap hostValue = [expectedHost] ∧
    parseUrl ("http://127.0.0.1".toList ++ target) = some url ∧ url.path = callbackPath ∧
    PairsGive url.queryPairs params

variable {E : Type} {parseUrl : Chars → Option Url} {expectedHost : Chars}

theorem toList_inj {first second : Option Chars} : first.toList = second.toList ↔ first = second := by
  cases first <;> cases second <;> simp

/-- At most one value fits into an option. -/
theorem cons_append_ne_toList (first second : Chars) (values : List Chars) (found : Option Chars) :
    first :: second :: values ≠ found.toList := by
  cases found <;> simp

theorem readHost_eq_some {host found : Option Chars} {headers : List Chars} :
    (readHost host headers : Except (DirectError E) (Option (Option Chars))) = .ok (some found) ↔
      (∀ line ∈ headerBlock headers, (splitOnce ':' line).isSome) ∧
      host.toList ++ (headerBlock headers).filterMap hostValue = found.toList := by
  induction headers generalizing host with
  | nil => simp [readHost, headerBlock, toList_inj]
  | cons line rest ih =>
      by_cases hend : (line.isEmpty || line = ['\r']) = true
      · have hblock : headerBlock (line :: rest) = [] := by
          rw [headerBlock, List.takeWhile_cons_of_neg (by rw [hend]; exact Bool.false_ne_true)]
        rw [readHost, if_pos hend, hblock]
        simp [toList_inj]
      · have hblock : headerBlock (line :: rest) = line :: headerBlock rest := by
          rw [headerBlock, List.takeWhile_cons_of_pos (by simpa using hend)]
          rfl
        rw [readHost, if_neg hend, hblock, List.forall_mem_cons]
        cases hsplit : splitOnce ':' line with
        | none => simp
        | some parts =>
            obtain ⟨name, value⟩ := parts
            by_cases hname : isHostName name = true
            · have hvalue : hostValue line = some (trim value) := by simp [hostValue, hsplit, hname]
              rw [List.filterMap_cons_some hvalue]
              cases host with
              | none => simp [hname, ih]
              | some first => simp [hname, cons_append_ne_toList]
            · have hvalue : hostValue line = none := by simp [hostValue, hsplit, hname]
              rw [List.filterMap_cons_none hvalue]
              simp [hname, ih]

theorem valuesOf_cons (key : String) (pair : Chars × Chars) (pairs : List (Chars × Chars)) :
    valuesOf key (pair :: pairs) = if pair.1 = key.toList then pair.2 :: valuesOf key pairs else valuesOf key pairs := by
  rw [valuesOf, List.filter_cons]
  by_cases hkey : pair.1 = key.toList
  · simp [hkey, valuesOf]
  · simp [hkey, valuesOf]

theorem readPairs_eq_ok {params found : QueryParams} {pairs : List (Chars × Chars)} :
    (readPairs params pairs : Except (DirectError E) QueryParams) = .ok found ↔
      params.code.toList ++ valuesOf "code" pairs = found.code.toList ∧
      params.state.toList ++ valuesOf "state" pairs = found.state.toList ∧
      (params.error || pairs.any (·.1 = "error".toList)) = found.error := by
  induction pairs generalizing params with
  | nil =>
      obtain ⟨code, state, error⟩ := params
      obtain ⟨code', state', error'⟩ := found
      simp [readPairs, valuesOf, toList_inj]
  | cons pair rest ih =>
      obtain ⟨key, value⟩ := pair
      rw [readPairs, valuesOf_cons, valuesOf_cons, List.any_cons]
      have hcodeState : "code".toList ≠ "state".toList := by decide
      have hcodeError : "code".toList ≠ "error".toList := by decide
      have hstateError : "state".toList ≠ "error".toList := by decide
      by_cases hcode : key = "code".toList
      · subst hcode
        simp only [hcodeState, hcodeError, ↓reduceIte, decide_false, Bool.false_or]
        cases hhas : params.code with
        | none => simp only [Option.isSome_none, Bool.false_eq_true, ↓reduceIte, ih, Option.toList_some,
            Option.toList_none, List.singleton_append, List.nil_append]
        | some first => simp only [Option.isSome_some, ↓reduceIte, reduceCtorEq, Option.toList_some,
            List.singleton_append, cons_append_ne_toList, false_and]
      · by_cases hstate : key = "state".toList
        · subst hstate
          simp only [hcode, hstateError, ↓reduceIte, decide_false, Bool.false_or]
          cases hhas : params.state with
          | none => simp only [Option.isSome_none, Bool.false_eq_true, ↓reduceIte, ih, Option.toList_some,
              Option.toList_none, List.singleton_append, List.nil_append]
          | some first => simp only [Option.isSome_some, ↓reduceIte, reduceCtorEq, Option.toList_some,
              List.singleton_append, cons_append_ne_toList, false_and, and_false]
        · by_cases herror : key = "error".toList
          · subst herror
            simp only [hcode, hstate, ↓reduceIte, decide_true, Bool.true_or, Bool.or_true, ih]
          · simp only [hcode, hstate, herror, ↓reduceIte, decide_false, Bool.false_or, ih]

theorem parseTarget_eq_some {target : Chars} {params : CallbackParams} :
    (parseTarget parseUrl target : Callback E) = .ok (some params) ↔
      ∃ url, parseUrl ("http://127.0.0.1".toList ++ target) = some url ∧ url.path = callbackPath ∧
        PairsGive url.queryPairs params := by
  rw [parseTarget]
  cases parseUrl ("http://127.0.0.1".toList ++ target) with
  | none => simp
  | some url =>
      simp only [Option.some.injEq, exists_eq_left']
      by_cases hpath : url.path = callbackPath
      · simp only [hpath, ne_eq, not_true_eq_false, ↓reduceIte, true_and]
        constructor
        · intro h
          cases hread : (readPairs {} url.queryPairs : Except (DirectError E) QueryParams) with
          | error error => simp only [hread, reduceCtorEq] at h
          | ok found =>
              obtain ⟨hcode, hstate, herror⟩ := readPairs_eq_ok.mp hread
              simp only [hread] at h
              cases hfound : found.state with
              | none => simp only [hfound, reduceCtorEq] at h
              | some state =>
                  simp only [hfound, Except.ok.injEq, Option.some.injEq] at h
                  subst h
                  refine ⟨by simpa [hfound] using hstate, ?_, by simpa using herror.symm⟩
                  cases hc : found.code with
                  | none => exact Or.inr ⟨by simpa [hc] using hcode, rfl⟩
                  | some code => exact Or.inl (by simpa [hc] using hcode)
        · rintro ⟨hstate, hcode, herror⟩
          obtain ⟨code, hvalues, hgiven⟩ : ∃ code : Option Chars, valuesOf "code" url.queryPairs = code.toList ∧
              code.getD [] = params.code := by
            rcases hcode with hcode | ⟨hcode, hnil⟩
            · exact ⟨some params.code, hcode, rfl⟩
            · exact ⟨none, hcode, hnil.symm⟩
          have hread : (readPairs {} url.queryPairs : Except (DirectError E) QueryParams) =
              .ok ⟨code, some params.state, params.error⟩ :=
            readPairs_eq_ok.mpr ⟨hvalues, hstate, by rw [herror]; rfl⟩
          simp only [hread, hgiven]
      · simp [hpath]

theorem parseText_eq_some {text : Chars} {params : CallbackParams} :
    (parseText parseUrl expectedHost text : Callback E) = .ok (some params) ↔
      ∃ requestLine headers target, lines text = requestLine :: headers ∧
        splitAsciiWhitespace requestLine = ["GET".toList, target, "HTTP/1.1".toList] ∧
        (readHost none headers : Except (DirectError E) (Option (Option Chars))) = .ok (some (some expectedHost)) ∧
        (parseTarget parseUrl target : Callback E) = .ok (some params) := by
  rw [parseText]
  cases hlines : lines text with
  | nil => simp
  | cons requestLine headers =>
      constructor
      · intro h
        dsimp only at h
        split at h
        case h_2 => cases h
        case h_1 method target version hparts =>
          split_ifs at h with hmethod
          · obtain ⟨rfl, rfl⟩ := hmethod
            refine ⟨requestLine, headers, target, rfl, hparts, ?_⟩
            split at h
            · cases h
            · cases h
            case h_3 host hread =>
              split_ifs at h with hhost
              subst hhost
              exact ⟨hread, h⟩
          · cases h
      · rintro ⟨requestLine', headers', target, heq, hparts, hread, htarget⟩
        obtain ⟨rfl, rfl⟩ := List.cons.inj heq
        simp only [hparts, hread, and_self, ↓reduceIte, htarget]

theorem parseRequest_eq_some {request : Bytes} {params : CallbackParams} :
    (parseRequest parseUrl expectedHost request : Callback E) = .ok (some params) ↔
      IsCallback parseUrl expectedHost request params := by
  rw [parseRequest]
  cases htext : fromUtf8 request with
  | error error =>
      constructor
      · intro h
        cases h
      · intro h
        exact absurd (htext.symm.trans h.text) (by simp)
  | ok text =>
      cases eq_of_fromUtf8_ok htext
      dsimp only
      rw [parseText_eq_some]
      constructor
      · rintro ⟨requestLine, headers, target, hlines, hparts, hread, htarget⟩
        obtain ⟨hcolon, hvalues⟩ := readHost_eq_some.mp hread
        obtain ⟨url, hurl, hpath, hpairs⟩ := parseTarget_eq_some.mp htarget
        exact ⟨htext, requestLine, headers, target, url, hlines, hparts, hcolon, hvalues, hurl, hpath, hpairs⟩
      · rintro ⟨-, requestLine, headers, target, url, hlines, hparts, hcolon, hvalues, hurl, hpath, hpairs⟩
        exact ⟨requestLine, headers, target, hlines, hparts, readHost_eq_some.mpr ⟨hcolon, hvalues⟩,
          parseTarget_eq_some.mpr ⟨url, hurl, hpath, hpairs⟩⟩

end Requests

section Splits

variable {α : Type*} {holds : List α → α → Prop}

/-- Every member of a list in the light of the members before it. -/
theorem forall_splits_cons {a : α} {items : List α} :
    (∀ before b after, a :: items = before ++ b :: after → holds before b) ↔
      holds [] a ∧ ∀ before b after, items = before ++ b :: after → holds (a :: before) b := by
  constructor
  · intro h
    exact ⟨h [] a items rfl, fun before b after heq => h (a :: before) b after (congrArg (List.cons a) heq)⟩
  · rintro ⟨hfirst, hrest⟩ before b after heq
    cases before with
    | nil =>
        obtain ⟨rfl, -⟩ := List.cons.inj heq
        exact hfirst
    | cons c before =>
        obtain ⟨rfl, htail⟩ := List.cons.inj heq
        exact hrest before b after htail

theorem forall_splits_nil : ∀ before (b : α) after, [] = before ++ b :: after → holds before b := by
  intro before b after heq
  cases before <;> cases heq

theorem forall_splits_append {first second : List α}
    (hfirst : ∀ before b after, first = before ++ b :: after → holds before b)
    (hsecond : ∀ before b after, second = before ++ b :: after → holds (first ++ before) b) :
    ∀ before b after, first ++ second = before ++ b :: after → holds before b := by
  induction first generalizing holds with
  | nil => exact hsecond
  | cons a first ih =>
      rw [List.cons_append]
      obtain ⟨ha, hrest⟩ := forall_splits_cons.mp hfirst
      exact forall_splits_cons.mpr ⟨ha, ih hrest hsecond⟩

end Splits

section Logins

variable {E : Type} {parseUrl : Chars → Option Url} {expectedHost : Chars} {login : BrowserLogin} {crates : Crates}
  {services : Services E}

/-- A connection that a login answers with 404. -/
def ignored (E : Type) (parseUrl : Chars → Option Url) (expectedHost : Chars) : Incoming → Bool
  | .connection isLoopback reads =>
      !isLoopback || match (readCallback parseUrl expectedHost reads : Option (Callback E)) with
        | some (.ok none) => true
        | _ => false
  | .failed _ => false

/-- The callback of a connection from this machine. -/
def CallsBack (E : Type) (parseUrl : Chars → Option Url) (expectedHost : Chars) (connection : Incoming)
    (params : CallbackParams) : Prop :=
  ∃ reads request, connection = .connection true reads ∧
    (readRequest [] reads : Option (Except (DirectError E) (Option Bytes))) = some (.ok (some request)) ∧
    IsCallback parseUrl expectedHost request params

/-- The first connection that is not ignored calls back with these parameters. -/
def FirstCallback (E : Type) (parseUrl : Chars → Option Url) (expectedHost : Chars) (incoming : List Incoming)
    (params : CallbackParams) : Prop :=
  ∃ before connection after, incoming = before ++ connection :: after ∧
    (∀ other ∈ before, ignored E parseUrl expectedHost other = true) ∧
    CallsBack E parseUrl expectedHost connection params

/-- The session is the one of the tokens that the code was exchanged for, and their ID token is verified. -/
def Verified (crates : Crates) (services : Services E) (nonce : String) (code redirectUri verifier : Chars)
    (session : StoredCodexSession) : Prop :=
  ∃ tokens jwks, services.exchangeCode code redirectUri verifier = .ok tokens ∧ services.jwks = .ok jwks ∧
    ∃ oidc now account refreshToken built, OidcVerifier.new issuer clientId jwks = .ok oidc ∧
      services.verifiedAt = some now ∧ oidc.verify crates (utf8 tokens.idToken) nonce now = .ok account ∧
      tokens.refreshToken = some refreshToken ∧ services.builtAt = some built ∧
      session = ⟨tokens.accessToken, refreshToken, saturatingAdd built (tokens.expiresIn.getD defaultExpiresIn),
        account.asStr, 0⟩

/-- What a login has to have done before. -/
def Allowed (login : BrowserLogin) (crates : Crates) (services : Services E) (parseUrl : Chars → Option Url)
    (incoming : List Incoming) (before : List Effect) : Effect → Prop
  | .writeNotFound => ∀ effect ∈ before, effect = .writeNotFound
  | .exchangeCode code redirectUri verifier =>
      (∀ effect ∈ before, effect = .writeNotFound) ∧ redirectUri = login.redirectUri.asStr ∧
        verifier = login.verifier ∧ code ≠ [] ∧ ∃ expectedHost state, login.redirectUri.expectedHost = some expectedHost ∧
          FirstCallback E parseUrl expectedHost incoming ⟨code, state, false⟩ ∧
          secureEqual crates (asBytes state) (asBytes login.state) = true
  | .fetchJwks => ∃ code redirectUri verifier, .exchangeCode code redirectUri verifier ∈ before
  | .save session => ∃ code redirectUri verifier, .exchangeCode code redirectUri verifier ∈ before ∧
      Verified crates services login.nonce code redirectUri verifier session
  | .writeHtml true => ∃ session, .save session ∈ before ∧ services.save session = .ok ()
  | .writeHtml false => ∀ session, .save session ∈ before → ∃ error, services.save session = .error error

theorem nowEpoch_eq_ok {clock : Option UInt64} {now : UInt64} :
    (nowEpoch clock : Except (DirectError E) UInt64) = .ok now ↔ clock = some now := by
  cases clock <;> simp [nowEpoch]

theorem initialSession_eq_ok {nonce : String} {tokens : TokenResponse} {jwks : JsonWebKeySet}
    {session : StoredCodexSession} (h : initialSession crates services nonce tokens jwks = .ok session) :
    ∃ oidc now account refreshToken built, OidcVerifier.new issuer clientId jwks = .ok oidc ∧
      services.verifiedAt = some now ∧ oidc.verify crates (utf8 tokens.idToken) nonce now = .ok account ∧
      tokens.refreshToken = some refreshToken ∧ services.builtAt = some built ∧
      session = ⟨tokens.accessToken, refreshToken, saturatingAdd built (tokens.expiresIn.getD defaultExpiresIn),
        account.asStr, 0⟩ := by
  rw [initialSession] at h
  obtain ⟨oidc, hoidc, h⟩ := bind_eq_ok.mp h
  obtain ⟨now, hnow, h⟩ := bind_eq_ok.mp h
  obtain ⟨account, haccount, h⟩ := bind_eq_ok.mp h
  cases hrefresh : tokens.refreshToken with
  | none =>
      rw [hrefresh] at h
      cases h
  | some refreshToken =>
      rw [hrefresh] at h
      obtain ⟨built, hbuilt, h⟩ := bind_eq_ok.mp h
      exact ⟨oidc, now, account, refreshToken, built, mapError_eq_ok.mp hoidc, nowEpoch_eq_ok.mp hnow,
        mapError_eq_ok.mp haccount, rfl, nowEpoch_eq_ok.mp hbuilt, (Except.ok.inj h).symm⟩

/-- How far an exchange gets. -/
theorem establish_cases (crates : Crates) (services : Services E) (nonce : String) (code redirectUri verifier : Chars) :
    let effects := (establish crates services nonce code redirectUri verifier).1
    let outcome := (establish crates services nonce code redirectUri verifier).2
    (∃ error, outcome = .error error ∧ effects = [.exchangeCode code redirectUri verifier]) ∨
    (∃ error, outcome = .error error ∧ effects = [.exchangeCode code redirectUri verifier, .fetchJwks]) ∨
    ∃ session, Verified crates services nonce code redirectUri verifier session ∧
      effects = [.exchangeCode code redirectUri verifier, .fetchJwks, .save session] ∧
      ((∃ error, services.save session = .error error ∧ outcome = .error (.service error)) ∨
        services.save session = .ok () ∧ outcome = .ok session) := by
  dsimp only
  rw [establish]
  cases htokens : services.exchangeCode code redirectUri verifier with
  | error error => exact Or.inl ⟨_, rfl, rfl⟩
  | ok tokens =>
      right
      cases hjwks : services.jwks with
      | error error => exact Or.inl ⟨_, rfl, rfl⟩
      | ok jwks =>
          cases hsession : initialSession crates services nonce tokens jwks with
          | error error => exact Or.inl ⟨error, by simp only [hsession], by simp only [hsession]⟩
          | ok session =>
              have hverified : Verified crates services nonce code redirectUri verifier session :=
                ⟨tokens, jwks, htokens, hjwks, initialSession_eq_ok hsession⟩
              refine Or.inr ⟨session, hverified, ?_⟩
              cases hsave : services.save session with
              | error error => exact ⟨by simp only [hsession, hsave], Or.inl ⟨error, rfl, by simp only [hsession, hsave]⟩⟩
              | ok _ => exact ⟨by simp only [hsession, hsave], Or.inr ⟨rfl, by simp only [hsession, hsave]⟩⟩

theorem callsBack_of_readCallback {reads : List Read} {callback : CallbackParams}
    (h : (readCallback parseUrl expectedHost reads : Option (Callback E)) = some (.ok (some callback))) :
    CallsBack E parseUrl expectedHost (.connection true reads) callback := by
  rw [readCallback] at h
  split at h
  · cases h
  · cases h
  · cases h
  case h_4 request hread => exact ⟨reads, request, rfl, hread, parseRequest_eq_some.mp (Option.some.inj h)⟩

/-- What is accepted from the listener. -/
abbrev Accepted (E : Type) := List Effect × Option (Except (DirectError E) CallbackParams)

theorem acceptCallback_ignored {connection : Incoming} (h : ignored E parseUrl expectedHost connection = true)
    (rest : List Incoming) :
    (acceptCallback parseUrl expectedHost (connection :: rest) : Accepted E) =
      (.writeNotFound :: (acceptCallback parseUrl expectedHost rest : Accepted E).1,
        (acceptCallback parseUrl expectedHost rest : Accepted E).2) := by
  cases connection with
  | failed error => cases h
  | connection isLoopback reads =>
      cases isLoopback with
      | false => rfl
      | true =>
          rw [ignored, Bool.not_true, Bool.false_or] at h
          rw [acceptCallback, if_pos rfl]
          split at h
          · rename_i hread
            rw [hread]
          · cases h

/-- A connection that is not ignored is the last one. -/
theorem acceptCallback_judged {connection : Incoming} (h : ignored E parseUrl expectedHost connection = false) :
    ∃ accepted : Accepted E, (∀ rest, acceptCallback parseUrl expectedHost (connection :: rest) = accepted) ∧
      ((∃ callback, accepted = ([], some (.ok callback)) ∧ CallsBack E parseUrl expectedHost connection callback) ∨
        (accepted.1 = [] ∨ accepted.1 = [.writeHtml false]) ∧ ∀ callback, accepted.2 ≠ some (.ok callback)) := by
  cases connection with
  | failed error => exact ⟨_, fun _ => rfl, Or.inr ⟨Or.inl rfl, fun callback h => by cases h⟩⟩
  | connection isLoopback reads =>
      cases isLoopback with
      | false => cases h
      | true =>
          rw [ignored, Bool.not_true, Bool.false_or] at h
          simp only [acceptCallback, ↓reduceIte]
          cases hread : (readCallback parseUrl expectedHost reads : Option (Callback E)) with
          | none => exact ⟨_, fun _ => rfl, Or.inr ⟨Or.inl rfl, fun callback h => by cases h⟩⟩
          | some result =>
              cases result with
              | error error => exact ⟨_, fun _ => rfl, Or.inr ⟨Or.inr rfl, fun callback h => by cases h⟩⟩
              | ok found =>
                  cases found with
                  | none => simp only [hread, Bool.true_eq_false] at h
                  | some callback => exact ⟨_, fun _ => rfl, Or.inl ⟨callback, rfl, callsBack_of_readCallback hread⟩⟩

variable (E parseUrl expectedHost) in
/-- The connections that a login has seen before its callback are ignored. -/
theorem acceptCallback_cases (incoming : List Incoming) :
    let accepted : Accepted E := acceptCallback parseUrl expectedHost incoming
    ∃ replies, (∀ effect ∈ replies, effect = .writeNotFound) ∧
      ((∃ callback, accepted = (replies, some (.ok callback)) ∧ FirstCallback E parseUrl expectedHost incoming callback) ∨
        (accepted.1 = replies ∨ accepted.1 = replies ++ [.writeHtml false]) ∧
          ∀ callback, accepted.2 ≠ some (.ok callback)) := by
  induction incoming with
  | nil => exact ⟨[], by simp, Or.inr ⟨Or.inl rfl, fun _ h => by cases h⟩⟩
  | cons connection rest ih =>
      dsimp only
      cases hignored : ignored E parseUrl expectedHost connection with
      | true =>
          obtain ⟨replies, hreplies, hcases⟩ := ih
          rw [acceptCallback_ignored hignored]
          refine ⟨.writeNotFound :: replies, List.forall_mem_cons.mpr ⟨rfl, hreplies⟩, ?_⟩
          rcases hcases with ⟨callback, haccepted, before, other, after, rfl, hbefore, hcalls⟩ | ⟨heffects, hnot⟩
          · refine Or.inl ⟨callback, by rw [haccepted], connection :: before, other, after, rfl, ?_, hcalls⟩
            exact List.forall_mem_cons.mpr ⟨hignored, hbefore⟩
          · refine Or.inr ⟨?_, hnot⟩
            rcases heffects with heffects | heffects
            · exact Or.inl (congrArg (List.cons _) heffects)
            · exact Or.inr (congrArg (List.cons _) heffects)
      | false =>
          refine ⟨[], by simp, ?_⟩
          obtain ⟨accepted, hrest, hcases⟩ := acceptCallback_judged hignored
          rw [hrest]
          rcases hcases with ⟨callback, haccepted, hcalls⟩ | hother
          · exact Or.inl ⟨callback, haccepted, [], connection, rest, rfl, by simp, hcalls⟩
          · exact Or.inr hother

/-- The connections that are ignored make no difference to the others. -/
theorem acceptCallback_filter (incoming : List Incoming) :
    (acceptCallback parseUrl expectedHost (incoming.filter (!ignored E parseUrl expectedHost ·)) : Accepted E) =
      ((acceptCallback parseUrl expectedHost incoming : Accepted E).1.filter (· ≠ .writeNotFound),
        (acceptCallback parseUrl expectedHost incoming : Accepted E).2) := by
  induction incoming with
  | nil => rfl
  | cons connection rest ih =>
      cases hignored : ignored E parseUrl expectedHost connection with
      | true =>
          rw [List.filter_cons_of_neg (by simp [hignored]), ih, acceptCallback_ignored hignored,
            List.filter_cons_of_neg (by simp)]
      | false =>
          obtain ⟨accepted, hrest, hcases⟩ := acceptCallback_judged hignored
          rw [List.filter_cons_of_pos (by simp [hignored]), hrest, hrest]
          rcases hcases with ⟨callback, rfl, -⟩ | ⟨heffects | heffects, -⟩
          · rfl
          · rw [heffects, List.filter_nil, ← heffects]
          · rw [heffects, List.filter_cons_of_pos (by decide), List.filter_nil, ← heffects]

/-- How far a login gets with its callback: it is refused, the exchange fails, or the session is saved. -/
theorem conclude_cases (login : BrowserLogin) (crates : Crates) (services : Services E) (callback : CallbackParams) :
    let concluded := login.conclude crates services callback
    let exchanged := Effect.exchangeCode callback.code login.redirectUri.asStr login.verifier
    let granted := secureEqual crates (asBytes callback.state) (asBytes login.state) = true ∧ callback.error = false ∧
      callback.code ≠ []
    let verified := Verified crates services login.nonce callback.code login.redirectUri.asStr login.verifier
    (concluded.1 = [.writeHtml false] ∧ ∀ session, concluded.2 ≠ .ok session) ∨
    (granted ∧ (concluded.1 = [exchanged, .writeHtml false] ∨ concluded.1 = [exchanged, .fetchJwks, .writeHtml false] ∨
      ∃ session error, verified session ∧ services.save session = .error error ∧
        concluded.1 = [exchanged, .fetchJwks, .save session, .writeHtml false]) ∧ ∀ session, concluded.2 ≠ .ok session) ∨
    granted ∧ ∃ session, verified session ∧ services.save session = .ok () ∧
      concluded.1 = [exchanged, .fetchJwks, .save session, .writeHtml true] ∧
      ∀ other, concluded.2 = .ok other → other = session := by
  dsimp only
  rw [BrowserLogin.conclude]
  split_ifs with hstate hgranted
  · exact Or.inl ⟨rfl, fun _ h => by cases h⟩
  · exact Or.inl ⟨rfl, fun _ h => by cases h⟩
  · have hgrant : secureEqual crates (asBytes callback.state) (asBytes login.state) = true ∧ callback.error = false ∧
        callback.code ≠ [] := ⟨by simpa using hstate, by simpa using hgranted⟩
    right
    rcases establish_cases crates services login.nonce callback.code login.redirectUri.asStr login.verifier with
      ⟨error, houtcome, heffects⟩ | ⟨error, houtcome, heffects⟩ | ⟨session, hverified, heffects, houtcome⟩
    · rw [Prod.ext (y := (_, _)) heffects houtcome]
      exact Or.inl ⟨hgrant, Or.inl rfl, fun _ h => by cases h⟩
    · rw [Prod.ext (y := (_, _)) heffects houtcome]
      exact Or.inl ⟨hgrant, Or.inr (Or.inl rfl), fun _ h => by cases h⟩
    · rcases houtcome with ⟨error, hsaved, houtcome⟩ | ⟨hsaved, houtcome⟩
      · rw [Prod.ext (y := (_, _)) heffects houtcome]
        exact Or.inl ⟨hgrant, Or.inr (Or.inr ⟨session, error, hverified, hsaved, rfl⟩), fun _ h => by cases h⟩
      · rw [Prod.ext (y := (_, _)) heffects houtcome]
        refine Or.inr ⟨hgrant, session, hverified, hsaved, ?_⟩
        cases services.writeHtml with
        | error error => exact ⟨rfl, fun _ h => by cases h⟩
        | ok _ => exact ⟨rfl, fun _ h => (Except.ok.inj h).symm⟩

theorem writeNotFound_allowed {incoming : List Incoming} {replies : List Effect}
    (hreplies : ∀ effect ∈ replies, effect = .writeNotFound) :
    ∀ before effect after, replies = before ++ effect :: after →
      Allowed login crates services parseUrl incoming before effect := by
  rintro before effect after rfl
  obtain ⟨hbefore, heffect⟩ := List.forall_mem_append.mp hreplies
  obtain rfl := heffect effect List.mem_cons_self
  exact hbefore

/-- A login that has saved nothing may fail. -/
theorem failure_allowed {incoming : List Incoming} {replies effects : List Effect}
    (hreplies : ∀ effect ∈ replies, effect = .writeNotFound) (heffects : ∀ session, Effect.save session ∉ effects) :
    Allowed login crates services parseUrl incoming (replies ++ effects) (.writeHtml false) := by
  intro session hmem
  rcases List.mem_append.mp hmem with hreply | heffect
  · cases hreplies _ hreply
  · exact absurd heffect (heffects session)

/-- The code of the first callback may be exchanged where its state is that of the login. -/
theorem exchange_allowed {incoming : List Incoming} {replies : List Effect}
    (hreplies : ∀ effect ∈ replies, effect = .writeNotFound) (hhost : login.redirectUri.expectedHost = some expectedHost)
    {callback : CallbackParams} (hfirst : FirstCallback E parseUrl expectedHost incoming callback)
    (hgranted : secureEqual crates (asBytes callback.state) (asBytes login.state) = true ∧ callback.error = false ∧
      callback.code ≠ []) :
    Allowed login crates services parseUrl incoming (replies ++ [])
      (.exchangeCode callback.code login.redirectUri.asStr login.verifier) := by
  obtain ⟨hstate, herror, hcode⟩ := hgranted
  rw [List.append_nil]
  refine ⟨hreplies, rfl, rfl, hcode, expectedHost, callback.state, hhost, ?_, hstate⟩
  rwa [← herror]

/-- What follows the callback is allowed where it is the first. -/
theorem conclude_allowed {incoming : List Incoming} {replies : List Effect}
    (hreplies : ∀ effect ∈ replies, effect = .writeNotFound) (hhost : login.redirectUri.expectedHost = some expectedHost)
    {callback : CallbackParams} (hfirst : FirstCallback E parseUrl expectedHost incoming callback) :
    ∀ before effect after, (login.conclude crates services callback).1 = before ++ effect :: after →
      Allowed login crates services parseUrl incoming (replies ++ before) effect := by
  have hmem : ∀ effects : List Effect, Effect.exchangeCode callback.code login.redirectUri.asStr login.verifier ∈
      replies ++ .exchangeCode callback.code login.redirectUri.asStr login.verifier :: effects := by simp
  rcases conclude_cases login crates services callback with
    ⟨heffects, -⟩ | ⟨hgranted, heffects | heffects | ⟨session, error, hverified, hsaved, heffects⟩, -⟩ |
      ⟨hgranted, session, hverified, hsaved, heffects, -⟩
  all_goals rw [heffects]
  · exact forall_splits_cons.mpr ⟨failure_allowed hreplies (by simp), forall_splits_nil⟩
  · refine forall_splits_cons.mpr ⟨exchange_allowed hreplies hhost hfirst hgranted, ?_⟩
    exact forall_splits_cons.mpr ⟨failure_allowed hreplies (by simp), forall_splits_nil⟩
  · refine forall_splits_cons.mpr ⟨exchange_allowed hreplies hhost hfirst hgranted, ?_⟩
    refine forall_splits_cons.mpr ⟨⟨_, _, _, hmem _⟩, ?_⟩
    exact forall_splits_cons.mpr ⟨failure_allowed hreplies (by simp), forall_splits_nil⟩
  · refine forall_splits_cons.mpr ⟨exchange_allowed hreplies hhost hfirst hgranted, ?_⟩
    refine forall_splits_cons.mpr ⟨⟨_, _, _, hmem _⟩, ?_⟩
    refine forall_splits_cons.mpr ⟨⟨_, _, _, hmem _, hverified⟩, ?_⟩
    refine forall_splits_cons.mpr ⟨?_, forall_splits_nil⟩
    intro other hin
    have hsave : Effect.save other ∉ replies := fun hreply => by cases hreplies _ hreply
    obtain rfl : other = session := by simpa [hsave] using hin
    exact ⟨error, hsaved⟩
  · refine forall_splits_cons.mpr ⟨exchange_allowed hreplies hhost hfirst hgranted, ?_⟩
    refine forall_splits_cons.mpr ⟨⟨_, _, _, hmem _⟩, ?_⟩
    refine forall_splits_cons.mpr ⟨⟨_, _, _, hmem _, hverified⟩, ?_⟩
    exact forall_splits_cons.mpr ⟨⟨session, by simp, hsaved⟩, forall_splits_nil⟩

/-- What a login does that gets no callback. -/
theorem acceptCallback_allowed {incoming : List Incoming} {replies effects : List Effect}
    (hreplies : ∀ effect ∈ replies, effect = .writeNotFound)
    (heffects : effects = replies ∨ effects = replies ++ [.writeHtml false]) :
    ∀ before effect after, effects = before ++ effect :: after →
      Allowed login crates services parseUrl incoming before effect := by
  rcases heffects with rfl | rfl
  · exact writeNotFound_allowed hreplies
  · apply forall_splits_append (writeNotFound_allowed hreplies)
    exact forall_splits_cons.mpr ⟨failure_allowed hreplies (by simp), forall_splits_nil⟩

theorem writeNotFound_notMem_conclude (login : BrowserLogin) (crates : Crates) (services : Services E)
    (callback : CallbackParams) : Effect.writeNotFound ∉ (login.conclude crates services callback).1 := by
  rcases conclude_cases login crates services callback with
    ⟨heffects, -⟩ | ⟨-, heffects | heffects | ⟨session, error, -, -, heffects⟩, -⟩ | ⟨-, session, -, -, heffects, -⟩
  all_goals
    rw [heffects]
    simp

/-- The connections that are ignored make no difference but their replies. -/
theorem completeInner_filter (hhost : login.redirectUri.expectedHost = some expectedHost) (incoming : List Incoming) :
    login.completeInner parseUrl crates services (incoming.filter (!ignored E parseUrl expectedHost ·)) =
      ((login.completeInner parseUrl crates services incoming).1.filter (· ≠ .writeNotFound),
        (login.completeInner parseUrl crates services incoming).2) := by
  simp only [BrowserLogin.completeInner, hhost, acceptCallback_filter]
  obtain ⟨effects, accepted⟩ := (acceptCallback parseUrl expectedHost incoming : Accepted E)
  cases accepted with
  | none => rfl
  | some result =>
      cases result with
      | error error => rfl
      | ok callback =>
          have hconclude : (login.conclude crates services callback).1.filter (· ≠ .writeNotFound) =
              (login.conclude crates services callback).1 := by
            apply List.filter_eq_self.mpr
            intro effect hmem
            apply decide_eq_true
            rintro rfl
            exact writeNotFound_notMem_conclude login crates services callback hmem
          dsimp only
          rw [List.filter_append, hconclude]

/-- Whatever a browser login does is allowed by what it has done before, a session that it returns is saved, and
other requests do not disturb it. -/
theorem completeInner_allowed (login : BrowserLogin) (crates : Crates) (services : Services E)
    (parseUrl : Chars → Option Url) (incoming : List Incoming) :
    let run := login.completeInner parseUrl crates services incoming
    (∀ before effect after, run.1 = before ++ effect :: after →
      Allowed login crates services parseUrl incoming before effect) ∧
    (∀ session, run.2 = some (.ok session) → services.save session = .ok () ∧
      ∃ before, run.1 = before ++ [.save session, .writeHtml true]) ∧
    ∀ expectedHost, login.redirectUri.expectedHost = some expectedHost →
      login.completeInner parseUrl crates services (incoming.filter (!ignored E parseUrl expectedHost ·)) =
        (run.1.filter (· ≠ .writeNotFound), run.2) := by
  refine and_assoc.mp ⟨?_, fun expectedHost hhost => completeInner_filter hhost incoming⟩
  rw [BrowserLogin.completeInner]
  cases hhost : login.redirectUri.expectedHost with
  | none => exact ⟨forall_splits_nil, fun _ h => by cases h⟩
  | some expectedHost =>
      dsimp only
      obtain ⟨replies, hreplies, ⟨callback, haccepted, hfirst⟩ | ⟨heffects, hnot⟩⟩ :=
        acceptCallback_cases E parseUrl expectedHost incoming
      · rw [haccepted]
        refine ⟨forall_splits_append (writeNotFound_allowed hreplies) (conclude_allowed hreplies hhost hfirst), ?_⟩
        intro session hsession
        have houtcome := Option.some.inj hsession
        rcases conclude_cases login crates services callback with
          ⟨-, hnot⟩ | ⟨-, -, hnot⟩ | ⟨-, saved, -, hsaved, heffects, hsame⟩
        · exact absurd houtcome (hnot session)
        · exact absurd houtcome (hnot session)
        · obtain rfl := hsame session houtcome
          refine ⟨hsaved, replies ++ [.exchangeCode callback.code login.redirectUri.asStr login.verifier, .fetchJwks], ?_⟩
          dsimp only
          rw [heffects, List.append_assoc]
          rfl
      · cases haccepted : (acceptCallback parseUrl expectedHost incoming : Accepted E) with
        | mk effects accepted =>
            rw [haccepted] at heffects hnot
            cases accepted with
            | none => exact ⟨acceptCallback_allowed hreplies heffects, fun _ h => by cases h⟩
            | some result =>
                cases result with
                | error error => exact ⟨acceptCallback_allowed hreplies heffects, fun _ h => by cases h⟩
                | ok callback => exact absurd rfl (hnot callback)

end Logins

end OpenaiRs.Login
