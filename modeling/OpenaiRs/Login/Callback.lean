import OpenaiRs.IdToken.Verifier
import OpenaiRs.Rust.Chars
import OpenaiRs.Rust.Lossy
import Mathlib.Data.List.Infix

/-!
# The callback of a browser login

`read_callback` of `openai-rs-codex/src/direct/auth.rs`: the request of a browser is read until its first blank line,
and gives the code and the state of its query, nothing, or an error.

## Implementation notes

The texts of a request are characters. `Url::parse` is a parameter, and of a `Url` only its path and what
`query_pairs` gives are used. A connection that stays open and sends nothing more is one whose reads end.
-/

namespace OpenaiRs.Login

open Rust Rust.Chars

section Definitions

inductive DirectError (E : Type) where
  | oauth (message : String)
  | configuration (message : String)
  /-- An error of the key set or of the ID token. -/
  | idToken (error : IdToken.DirectError)
  /-- An error of a request or of the credential store. -/
  | service (error : E)
  | timeout
  | cancelled
  deriving DecidableEq

structure CallbackParams where
  code : Chars
  state : Chars
  error : Bool
  deriving DecidableEq

/-- What a read gives; no bytes are the end of the stream. -/
inductive Read where
  | bytes (chunk : Bytes)
  | failed (error : String)

/-- What is made of a request, once it is there: `none` where the request is no callback. -/
abbrev Callback (E : Type) := Except (DirectError E) (Option CallbackParams)

/-- The part of a `Url` that a callback uses. -/
structure Url where
  path : Chars
  queryPairs : List (Chars × Chars)

def maxCallbackBytes : ℕ := 8 * 1024
def callbackPath : Chars := "/auth/callback".toList
def blankLine : Bytes := [cr, lf, cr, lf]

variable {E : Type}

/-- The bytes of a request up to the read that completes a blank line, or why there are none; `none` while the
connection is waited for. -/
def readRequest (request : Bytes) : List Read → Option (Except (DirectError E) (Option Bytes))
  | [] => none
  | .failed error :: _ => some (.error (.oauth ("callback read failed: " ++ error)))
  | .bytes chunk :: reads =>
      if chunk.isEmpty then some (.ok none)
      else if maxCallbackBytes < request.length + chunk.length then
        some (.error (.oauth "callback request too large"))
      else if blankLine <:+: request ++ chunk then some (.ok (some (request ++ chunk)))
      else readRequest (request ++ chunk) reads

def isAsciiWhitespace (c : Char) : Bool := c = ' ' || c = '\t' || c = '\n' || c = '\x0C' || c = '\r'

/-- `str::split_ascii_whitespace`. -/
def splitAsciiWhitespace (text : Chars) : List Chars := (text.splitOnP isAsciiWhitespace).filter (· ≠ [])

def isHostName (name : Chars) : Bool := name.map Char.toLower = "host".toList

/-- The value of the `Host` header, from the value so far and the lines of the headers; `some none` without one. -/
def readHost (host : Option Chars) : List Chars → Except (DirectError E) (Option (Option Chars))
  | [] => .ok (some host)
  | line :: rest =>
      if line.isEmpty || line = ['\r'] then .ok (some host)
      else
        match splitOnce ':' line with
        | none => .ok none
        | some (name, value) =>
            if isHostName name then
              if host.isSome then .error (.oauth "duplicate callback Host header")
              else readHost (some (trim value)) rest
            else readHost host rest

structure QueryParams where
  code : Option Chars := none
  state : Option Chars := none
  error : Bool := false

def readPairs (params : QueryParams) : List (Chars × Chars) → Except (DirectError E) QueryParams
  | [] => .ok params
  | (key, value) :: rest =>
      if key = "code".toList then
        if params.code.isSome then .error (.oauth "duplicate callback code parameter")
        else readPairs { params with code := some value } rest
      else if key = "state".toList then
        if params.state.isSome then .error (.oauth "duplicate callback state parameter")
        else readPairs { params with state := some value } rest
      else if key = "error".toList then readPairs { params with error := true } rest
      else readPairs params rest

variable (parseUrl : Chars → Option Url)

def parseTarget (target : Chars) : Callback E :=
  match parseUrl ("http://127.0.0.1".toList ++ target) with
  | none => .error (.oauth "invalid callback URL")
  | some url =>
      if url.path ≠ callbackPath then .ok none
      else
        match readPairs {} url.queryPairs with
        | .error error => .error error
        | .ok params =>
            match params.state with
            | none => .error (.oauth "callback state missing")
            | some state => .ok (some ⟨params.code.getD [], state, params.error⟩)

def parseText (expectedHost : Chars) (text : Chars) : Callback E :=
  match lines text with
  | [] => .error (.oauth "callback request line missing")
  | requestLine :: headers =>
      match splitAsciiWhitespace requestLine with
      | [method, target, version] =>
          if method = "GET".toList ∧ version = "HTTP/1.1".toList then
            match readHost none headers with
            | .error error => .error error
            | .ok none => .ok none
            | .ok (some host) =>
                if host = some expectedHost then parseTarget parseUrl target
                else .error (.oauth "callback Host header mismatch")
          else .ok none
      | _ => .ok none

def parseRequest (expectedHost : Chars) (request : Bytes) : Callback E :=
  match fromUtf8 request with
  | .error _ => .error (.oauth "callback was not UTF-8")
  | .ok text => parseText parseUrl expectedHost (fromUtf8Lossy text)

/-- `read_callback`; `none` while the connection is waited for. -/
def readCallback (expectedHost : Chars) (reads : List Read) : Option (Callback E) :=
  match readRequest [] reads with
  | none => none
  | some (.error error) => some (.error error)
  | some (.ok none) => some (.ok none)
  | some (.ok (some request)) => some (parseRequest parseUrl expectedHost request)

end Definitions

section Splits

variable {E : Type} {parseUrl : Chars → Option Url} {expectedHost : Chars}

theorem linesFrom_append_lf (current head rest : Chars) :
    linesFrom current (head ++ '\n' :: rest) = linesFrom current (head ++ ['\n']) ++ lines rest := by
  induction head generalizing current with
  | nil => rfl
  | cons c head ih =>
      simp only [List.cons_append, linesFrom]
      split_ifs with hc
      · rw [ih, List.cons_append]
      · exact ih _

/-- The headers end at the first empty line. -/
theorem readHost_append (host : Option Chars) (headers rest : List Chars) :
    (readHost host (headers ++ [] :: rest) : Except (DirectError E) (Option (Option Chars))) =
      readHost host (headers ++ [[]]) := by
  induction headers generalizing host with
  | nil => rfl
  | cons line headers ih => simp only [List.cons_append, readHost, ih]

theorem linesFrom_lf_ne_nil (current head rest : Chars) : linesFrom current (head ++ '\n' :: rest) ≠ [] := by
  induction head generalizing current with
  | nil => exact List.cons_ne_nil _ _
  | cons c head ih =>
      simp only [List.cons_append, linesFrom]
      split_ifs with hc
      · exact List.cons_ne_nil _ _
      · exact ih _

theorem lines_blankLine (head rest : Chars) :
    lines (head ++ '\r' :: '\n' :: '\r' :: '\n' :: rest) = lines (head ++ ['\r', '\n']) ++ [] :: lines rest := by
  have h := linesFrom_append_lf [] (head ++ ['\r']) ('\r' :: '\n' :: rest)
  simp only [List.append_assoc, List.singleton_append] at h
  exact h

/-- What stands behind a blank line is not looked at. -/
theorem parseText_append (head rest : Chars) :
    (parseText parseUrl expectedHost (head ++ '\r' :: '\n' :: '\r' :: '\n' :: rest) : Callback E) =
      parseText parseUrl expectedHost (head ++ ['\r', '\n', '\r', '\n']) := by
  obtain ⟨requestLine, headers, hlines⟩ : ∃ requestLine headers, lines (head ++ ['\r', '\n']) = requestLine :: headers := by
    apply List.exists_cons_of_ne_nil
    have h := linesFrom_lf_ne_nil [] (head ++ ['\r']) []
    rwa [List.append_assoc] at h
  have hnil : head ++ ['\r', '\n', '\r', '\n'] = head ++ '\r' :: '\n' :: '\r' :: '\n' :: [] := rfl
  rw [hnil, parseText, parseText, lines_blankLine, lines_blankLine, hlines]
  simp only [List.cons_append, readHost_append _ headers (lines rest), readHost_append _ headers (lines [])]

theorem fromUtf8Lossy_blankLine (before after : Bytes) :
    fromUtf8Lossy (before ++ blankLine ++ after) =
      fromUtf8Lossy before ++ '\r' :: '\n' :: '\r' :: '\n' :: fromUtf8Lossy after := by
  have hcr : cr < 0x80 := by decide
  have hlf : lf < 0x80 := by decide
  calc fromUtf8Lossy (before ++ blankLine ++ after)
      = fromUtf8Lossy (before ++ cr :: lf :: cr :: lf :: after) := by rw [List.append_assoc]; rfl
    _ = fromUtf8Lossy before ++ Char.ofNat cr.toNat :: fromUtf8Lossy (lf :: cr :: lf :: after) :=
        fromUtf8Lossy_append_ascii hcr _ _
    _ = fromUtf8Lossy before ++ '\r' :: '\n' :: '\r' :: '\n' :: fromUtf8Lossy after := by
        rw [fromUtf8Lossy_cons_ascii hlf, fromUtf8Lossy_cons_ascii hcr, fromUtf8Lossy_cons_ascii hlf]
        rfl

/-- A request that is too large, or whose last read is not UTF-8. -/
def Refused (result : Option (Callback E)) : Prop :=
  result = some (.error (.oauth "callback request too large")) ∨ result = some (.error (.oauth "callback was not UTF-8"))

variable (E parseUrl expectedHost) in
/-- Two buffers of one stream that both hold a blank line are read alike, unless one is not UTF-8. -/
theorem parseRequest_longer {buffer : Bytes} (more : Bytes) (h : blankLine <:+: buffer) :
    let result : Option (Callback E) := some (parseRequest parseUrl expectedHost buffer)
    let result' : Option (Callback E) := some (parseRequest parseUrl expectedHost (buffer ++ more))
    result = result' ∨ Refused result ∨ Refused result' := by
  obtain ⟨before, after, rfl⟩ := h
  have hparse : ∀ after, (parseRequest parseUrl expectedHost (before ++ blankLine ++ after) : Callback E) =
        .error (.oauth "callback was not UTF-8") ∨
      (parseRequest parseUrl expectedHost (before ++ blankLine ++ after) : Callback E) =
        parseText parseUrl expectedHost (fromUtf8Lossy before ++ ['\r', '\n', '\r', '\n']) := by
    intro after
    rw [parseRequest]
    cases htext : fromUtf8 (before ++ blankLine ++ after) with
    | error _ => exact Or.inl rfl
    | ok text =>
        right
        cases eq_of_fromUtf8_ok htext
        dsimp only
        rw [fromUtf8Lossy_blankLine, parseText_append]
  rcases hparse after with hbad | hshort
  · exact Or.inr (Or.inl (Or.inr (congrArg some hbad)))
  · have hlong := hparse (after ++ more)
    rw [← List.append_assoc] at hlong
    rcases hlong with hbad | hlong
    · exact Or.inr (Or.inr (Or.inr (congrArg some hbad)))
    · exact Or.inl (congrArg some (hshort.trans hlong.symm))

/-- The chunks of a request hold its blank line, are too many, or are followed by what comes next. -/
theorem readRequest_chunks {request : Bytes} (hrequest : ¬ blankLine <:+: request)
    (hlength : request.length ≤ maxCallbackBytes) {chunks : List Bytes} (hchunks : ∀ chunk ∈ chunks, chunk ≠ [])
    (tail : List Read) :
    (∃ buffer, (readRequest request (chunks.map .bytes ++ tail) : Option (Except (DirectError E) (Option Bytes))) =
        some (.ok (some buffer)) ∧ buffer <+: request ++ chunks.flatten ∧ blankLine <:+: buffer ∧
        buffer.length ≤ maxCallbackBytes) ∨
    ((readRequest request (chunks.map .bytes ++ tail) : Option (Except (DirectError E) (Option Bytes))) =
        some (.error (.oauth "callback request too large")) ∧
        maxCallbackBytes < (request ++ chunks.flatten).length) ∨
    ((readRequest request (chunks.map .bytes ++ tail) : Option (Except (DirectError E) (Option Bytes))) =
        readRequest (request ++ chunks.flatten) tail ∧ ¬ blankLine <:+: request ++ chunks.flatten ∧
        (request ++ chunks.flatten).length ≤ maxCallbackBytes) := by
  induction chunks generalizing request with
  | nil => exact Or.inr (Or.inr ⟨by simp, by simpa using hrequest, by simpa using hlength⟩)
  | cons chunk chunks ih =>
      have hne : chunk.isEmpty = false := by
        rw [List.isEmpty_eq_false_iff]
        exact hchunks chunk List.mem_cons_self
      simp only [List.map_cons, List.cons_append, readRequest, hne, Bool.false_eq_true, ↓reduceIte, List.flatten_cons,
        ← List.append_assoc]
      split_ifs with hlarge hblank
      · refine Or.inr (Or.inl ⟨rfl, ?_⟩)
        simp only [List.length_append] at hlarge ⊢
        omega
      · refine Or.inl ⟨request ++ chunk, rfl, List.prefix_append _ _, hblank, ?_⟩
        rw [List.length_append]
        omega
      · exact ih hblank (by rw [List.length_append]; omega) fun c hc => hchunks c (List.mem_cons_of_mem _ hc)

variable (E parseUrl expectedHost) in
theorem readCallback_chunks {chunks : List Bytes} (hchunks : ∀ chunk ∈ chunks, chunk ≠ []) (tail : List Read) :
    (∃ buffer, (readCallback parseUrl expectedHost (chunks.map .bytes ++ tail) : Option (Callback E)) =
        some (parseRequest parseUrl expectedHost buffer) ∧ buffer <+: chunks.flatten ∧ blankLine <:+: buffer ∧
        buffer.length ≤ maxCallbackBytes) ∨
    ((readCallback parseUrl expectedHost (chunks.map .bytes ++ tail) : Option (Callback E)) =
        some (.error (.oauth "callback request too large")) ∧ maxCallbackBytes < chunks.flatten.length) ∨
    (¬ blankLine <:+: chunks.flatten ∧ chunks.flatten.length ≤ maxCallbackBytes ∧
      (readCallback parseUrl expectedHost (chunks.map .bytes ++ tail) : Option (Callback E)) =
        match readRequest chunks.flatten tail with
        | none => none
        | some (.error error) => some (.error error)
        | some (.ok none) => some (.ok none)
        | some (.ok (some request)) => some (parseRequest parseUrl expectedHost request)) := by
  have hnone : ¬ blankLine <:+: [] := by decide
  rcases readRequest_chunks (E := E) hnone (Nat.zero_le _) hchunks tail with
    ⟨buffer, hread, hbegins, hblank, hlength⟩ | ⟨hread, hlength⟩ | ⟨hread, hblank, hlength⟩
  · exact Or.inl ⟨buffer, by rw [readCallback, hread], hbegins, hblank, hlength⟩
  · exact Or.inr (Or.inl ⟨by rw [readCallback, hread], hlength⟩)
  · exact Or.inr (Or.inr ⟨hblank, hlength, by rw [readCallback, hread]; rfl⟩)

/-- Where no byte stands behind the first blank line, the request is all that is sent. -/
theorem eq_of_blankLine {stream buffer : Bytes} (h : ∀ before after, stream = before ++ blankLine ++ after → after = [])
    (hbegins : buffer <+: stream) (hblank : blankLine <:+: buffer) : buffer = stream := by
  obtain ⟨more, rfl⟩ := hbegins
  obtain ⟨before, after, rfl⟩ := hblank
  have hnil := h before (after ++ more) (List.append_assoc _ _ _)
  rw [List.append_eq_nil_iff] at hnil
  rw [hnil.2, List.append_nil]

/-- Two requests that begin the same stream give the same, unless one is refused. -/
theorem parseRequest_congr {stream buffer buffer' : Bytes} (hbegins : buffer <+: stream) (hbegins' : buffer' <+: stream)
    (hblank : blankLine <:+: buffer) (hblank' : blankLine <:+: buffer') :
    (some (parseRequest parseUrl expectedHost buffer) : Option (Callback E)) = some (parseRequest parseUrl expectedHost buffer') ∨
      Refused (some (parseRequest parseUrl expectedHost buffer) : Option (Callback E)) ∨
      Refused (some (parseRequest parseUrl expectedHost buffer') : Option (Callback E)) := by
  rcases List.prefix_or_prefix_of_prefix hbegins hbegins' with ⟨more, rfl⟩ | ⟨more, rfl⟩
  · exact parseRequest_longer E parseUrl expectedHost more hblank
  · rcases parseRequest_longer E parseUrl expectedHost more hblank' with hsame | hrefused | hrefused
    · exact Or.inl hsame.symm
    · exact Or.inr (Or.inr hrefused)
    · exact Or.inr (Or.inl hrefused)

/-- How the bytes of a request are split into reads decides at most whether it is refused, and nothing at all where
no byte stands behind its blank line. -/
theorem readCallback_split {chunks chunks' : List Bytes} (hchunks : ∀ chunk ∈ chunks, chunk ≠ [])
    (hchunks' : ∀ chunk ∈ chunks', chunk ≠ []) (h : chunks.flatten = chunks'.flatten) (tail : List Read) :
    let result : Option (Callback E) := readCallback parseUrl expectedHost (chunks.map .bytes ++ tail)
    let result' : Option (Callback E) := readCallback parseUrl expectedHost (chunks'.map .bytes ++ tail)
    (result = result' ∨ Refused result ∨ Refused result') ∧
      ((∀ before after, chunks.flatten = before ++ blankLine ++ after → after = []) → result = result') := by
  intro result result'
  have hresult := readCallback_chunks E parseUrl expectedHost hchunks tail
  have hresult' := readCallback_chunks E parseUrl expectedHost hchunks' tail
  rw [← h] at hresult'
  rcases hresult with ⟨buffer, hread, hbegins, hblank, hlength⟩ | ⟨hread, hlength⟩ | ⟨hblank, hlength, hread⟩
  · rcases hresult' with ⟨buffer', hread', hbegins', hblank', -⟩ | ⟨hread', hlength'⟩ | ⟨hblank', -, -⟩
    · refine ⟨?_, fun hend => ?_⟩
      · simp only [result, result', hread, hread']
        exact parseRequest_congr hbegins hbegins' hblank hblank'
      · simp only [result, result', hread, hread']
        rw [eq_of_blankLine hend hbegins hblank, eq_of_blankLine hend hbegins' hblank']
    · refine ⟨Or.inr (Or.inr (Or.inl hread')), fun hend => ?_⟩
      rw [← eq_of_blankLine hend hbegins hblank] at hlength'
      omega
    · exact absurd (hblank.trans hbegins.isInfix) hblank'
  · rcases hresult' with ⟨buffer', hread', hbegins', hblank', hlength'⟩ | ⟨hread', -⟩ | ⟨-, hlength', -⟩
    · refine ⟨Or.inr (Or.inl (Or.inl hread)), fun hend => ?_⟩
      rw [← eq_of_blankLine hend hbegins' hblank'] at hlength
      omega
    · have hsame : result = result' := hread.trans hread'.symm
      exact ⟨Or.inl hsame, fun _ => hsame⟩
    · omega
  · rcases hresult' with ⟨buffer', -, hbegins', hblank', -⟩ | ⟨-, hlength'⟩ | ⟨-, -, hread'⟩
    · exact absurd (hblank'.trans hbegins'.isInfix) hblank
    · omega
    · have hsame : result = result' := hread.trans hread'.symm
      exact ⟨Or.inl hsame, fun _ => hsame⟩

def requestLine : Bytes := utf8 "GET /auth/callback?code=c&state=s HTTP/1.1\r\n"
def requestHeaders : Bytes := utf8 "Host: localhost:1455\r\n\r\n"

/-- A request that arrives in two reads, and in one. -/
theorem readCallback_split_request :
    let url : Url := ⟨callbackPath, [("code".toList, ['c']), ("state".toList, ['s'])]⟩
    let result : Option (Callback Unit) := readCallback (fun _ => some url) "localhost:1455".toList
      ([requestLine, requestHeaders].map .bytes ++ [])
    let result' : Option (Callback Unit) := readCallback (fun _ => some url) "localhost:1455".toList
      ([requestLine ++ requestHeaders].map .bytes ++ [])
    result = result' ∨ Refused result ∨ Refused result' :=
  (readCallback_split (by decide) (by decide) (List.append_assoc _ _ _).symm []).1

end Splits

end OpenaiRs.Login
