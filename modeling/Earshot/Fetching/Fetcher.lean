import Earshot.Common.Crash
import Mathlib.Data.Int.Notation
/-!
# Fetching one recording

`RecordingFetcher.open`: a URL a provider chose is followed hop by hop. What
the world answers (the resolver, the sockets, the servers, the clock and
whoever closes the fetcher) is a function of all that was done so far, so a
server may answer each request as it likes; what is done is a trace of events.
-/

namespace Earshot.Fetching

open Crash Crash.Prog

def HTTPS_PORT : ℕ := 443

def MAX_HOST_LENGTH : ℕ := 253

/-! ## Addresses -/

/-- `ipaddress`: an address by its number. -/
inductive Address where
  | v4 (n : ℕ)
  | v6 (n : ℕ)
  deriving DecidableEq

/-- What `ipaddress` knows: how an address is written, and its registry. -/
structure Registry where
  parse : String → Option Address
  isGlobal : Address → Bool
  isMulticast : Address → Bool

/-- The IPv4 addresses an IPv6 address embeds: mapped, 6to4, Teredo's server
and client, NAT64. -/
def embedded (n : ℕ) : List ℕ :=
  (if n >>> 32 = 0xFFFF then [n % 0x100000000] else []) ++
  (if n >>> 112 = 0x2002 then [(n >>> 80) % 0x100000000] else []) ++
  (if n >>> 96 = 0x20010000 then [(n >>> 64) % 0x100000000, 0xFFFFFFFF - n % 0x100000000]
    else []) ++
  -- `64:ff9b::/96`
  (if n >>> 32 = 0x64FF9B0000000000000000 then [n % 0x100000000] else [])

/-- `public_address` -/
def publicAddress (R : Registry) (text : String) : Bool :=
  match R.parse text with
  | none => false
  | some (.v4 n) => R.isGlobal (.v4 n) && !R.isMulticast (.v4 n)
  | some (.v6 n) =>
    R.isGlobal (.v6 n) && !R.isMulticast (.v6 n) &&
      -- `_IPV4_COMPATIBLE` and `_LOCAL_USE_NAT64`
      !(n >>> 32 = 0) && !(n >>> 80 = 0x64FF9B0001) &&
      (embedded n).all fun inner => R.isGlobal (.v4 inner) && !R.isMulticast (.v4 inner)

-- `64:ff9b::7f00:1`, `2002:7f00:1::`
example : embedded 0x64FF9B00000000000000007F000001 = [0x7F000001] ∧
    embedded 0x20027F00000100000000000000000000 = [0x7F000001] := by decide

/-! ## URLs -/

/-- `SplitResult` -/
structure SplitResult where
  scheme : String
  netloc : String
  path : String
  query : String
  username : Option String
  password : Option String
  hostname : Option String
  port : Option ℕ

/-- What the fetcher takes from Python: `urlsplit` is `none` where it or its
port raises. -/
structure Python where
  urlsplit : String → Option SplitResult
  urljoin : String → String → String
  strip : String → String
  lower : String → String
  int : String → Option ℤ

/-- `_valid_label` -/
def validLabel (label : List Char) : Bool :=
  0 < label.length && label.length ≤ 63 && label.head? != some '-' && label.getLast? != some '-' &&
    label.all fun c => c.isAlphanum || c == '-'

structure HostAllowlist where
  exact : List String
  wildcards : List String

/-- `HostAllowlist.allows`: `partition` cuts at the first dot. -/
def HostAllowlist.allows (l : HostAllowlist) (host : String) : Bool :=
  l.exact.contains host ||
    let first := host.toList.takeWhile (· ≠ '.')
    let rest := (host.toList.dropWhile (· ≠ '.')).tail
    !rest.isEmpty && validLabel first && l.wildcards.contains (.ofList rest)

structure Credential where
  host : String
  header : String
  value : String
  deriving DecidableEq

inductive FetchCode where
  | urlInvalid
  | hostNotAllowed
  | addressNotAllowed
  | dnsFailed
  | connectFailed
  | tlsFailed
  | timeout
  | interrupted
  | tooManyRedirects
  | upstreamUnavailable
  | gone
  | refused
  | notAudio
  | tooLarge
  deriving DecidableEq

inductive Outcome where
  | retry
  | failed
  | gone
  deriving DecidableEq

inductive Failure where
  /-- `FetchError` -/
  | fetch (code : FetchCode) (outcome : Outcome) (host : Option String)
  /-- `FetchStopped` -/
  | stopped
  /-- `ValueError`: the credential is not the first URL's. -/
  | value
  deriving DecidableEq

/-- `_Hop` -/
structure Hop where
  host : String
  target : String

/-- `_hop`: the checked host and request target of a URL. -/
def hop (py : Python) (url : String) (allowedHosts : Option HostAllowlist) :
    Except Failure Hop :=
  match py.urlsplit url with
  | none => .error (.fetch .urlInvalid .failed none)
  | some parts =>
    match parts.hostname with
    | none => .error (.fetch .urlInvalid .failed none)
    | some host =>
      if parts.scheme ≠ "https" ∨ host = "" then .error (.fetch .urlInvalid .failed (some host))
      else if parts.port ≠ none ∧ parts.port ≠ some HTTPS_PORT then
        .error (.fetch .urlInvalid .failed (some host))
      else if parts.username ≠ none ∨ parts.password ≠ none ∨ '@' ∈ parts.netloc.toList then
        .error (.fetch .urlInvalid .failed (some host))
      else if host.toList.any (127 < ·.toNat) ∨ MAX_HOST_LENGTH < host.length then
        .error (.fetch .urlInvalid .failed none)
      else if allowedHosts.all (·.allows host) then
        .ok ⟨host, (if parts.path = "" then "/" else parts.path) ++
          if parts.query = "" then "" else "?" ++ parts.query⟩
      else .error (.fetch .hostNotAllowed .failed (some host))

/-! ## The world -/

/-- One answer of a lookup. -/
structure ResolvedAddress where
  address : String
  sockaddr : String

inductive Event where
  /-- Whether the fetcher was closed, or the time is up. -/
  | check
  | lookup (host : String)
  | connect (sockaddr : String)
  | handshake (serverHostname : String)
  | request (host target : String) (headers : List (String × String))

inductive Dial where
  | done
  | timedOut
  | refused

structure Response where
  status : ℕ
  location : Option String
  contentType : Option String
  contentEncoding : Option String
  contentLength : Option String
  transferEncoding : Option String

inductive Reply where
  | response (r : Response)
  | timedOut
  | broken

/-- What the world answers, given all that was done. -/
structure World where
  closing : List Event → Bool
  expired : List Event → Bool
  resolve : List Event → Option (List ResolvedAddress)
  connect : List Event → Dial
  handshake : List Event → Dial
  respond : List Event → Reply

/-- The fetcher: `maxBytes` of its limits, and the test-mode origin. -/
structure Fetcher where
  py : Python
  registry : Registry
  world : World
  maxBytes : ℕ
  testOrigin : Option String

/-- An accepted response. -/
structure Accepted where
  host : String
  contentType : String
  contentLength : Option ℤ

namespace Fetcher

abbrev Fetch := Prog (List Event) Failure

variable (F : Fetcher)

def emit (e : Event) : Fetch Unit := modify (· ++ [e])

/-- `_check_open` -/
def checkOpen : Fetch Unit := do
  emit .check
  let trace ← get
  if F.world.closing trace then throw .stopped else pure ()

/-- `_remaining` -/
def remaining (host : String) : Fetch Unit := do
  emit .check
  let trace ← get
  if F.world.expired trace then throw (.fetch .timeout .retry (some host)) else pure ()

/-- The answers of the one lookup, one after the other. -/
def dial (host : String) : List ResolvedAddress → Bool → Fetch Unit
  | [], timedOut =>
    throw (.fetch (if timedOut then .timeout else .connectFailed) .retry (some host))
  | answer :: answers, timedOut => do
    checkOpen F
    emit (.connect answer.sockaddr)
    let trace ← get
    match F.world.connect trace with
    | .done => pure ()
    | .timedOut => dial host answers true
    | .refused => do
      checkOpen F
      dial host answers timedOut

/-- `_connect` -/
def connect (host : String) : Fetch Unit := do
  remaining F host
  match F.testOrigin with
  | some origin => do
    emit (.connect origin)
    let trace ← get
    match F.world.connect trace with
    | .done => checkOpen F
    | _ => throw (.fetch .connectFailed .retry (some host))
  | none => do
    emit (.lookup host)
    let trace ← get
    match F.world.resolve trace with
    | none => throw (.fetch .dnsFailed .retry (some host))
    | some answers =>
      if answers = [] then throw (.fetch .dnsFailed .retry (some host))
      else if answers.all (fun answer => publicAddress F.registry answer.address) then do
        dial F host answers false
        emit (.handshake host)
        let trace ← get
        match F.world.handshake trace with
        | .done => checkOpen F
        | .timedOut => throw (.fetch .timeout .retry (some host))
        | .refused => do
          checkOpen F
          throw (.fetch .tlsFailed .retry (some host))
      else throw (.fetch .addressNotAllowed .failed (some host))

def ACCEPT : String := "audio/*"

/-- The headers of every request, `userAgent` being the fixed `USER_AGENT`. -/
def headers (userAgent : String) (credential : Option Credential) : List (String × String) :=
  [("Accept", ACCEPT), ("User-Agent", userAgent)] ++
    credential.toList.map fun c => (c.header, c.value)

/-- `_send` -/
def send (userAgent : String) (h : Hop) (credential : Option Credential) : Fetch Response := do
  remaining F h.host
  emit (.request h.host h.target (headers userAgent credential))
  let trace ← get
  match F.world.respond trace with
  | .response r => pure r
  | .timedOut => throw (.fetch .timeout .retry (some h.host))
  | .broken => do
    checkOpen F
    throw (.fetch .interrupted .retry (some h.host))

/-- `_accept` -/
def accept (host : String) (r : Response) : Except Failure Accepted :=
  if r.status = 429 ∨ 500 ≤ r.status ∧ r.status ≤ 599 then
    .error (.fetch .upstreamUnavailable .retry (some host))
  else if r.status = 403 ∨ r.status = 404 ∨ r.status = 410 then
    .error (.fetch .gone .gone (some host))
  else if r.status ≠ 200 then .error (.fetch .refused .failed (some host))
  else
    let contentType := F.py.lower (F.py.strip (.ofList
      ((r.contentType.getD "").toList.takeWhile (· ≠ ';'))))
    let encoding := F.py.lower (F.py.strip (r.contentEncoding.getD ""))
    if ¬ contentType.startsWith "audio/" ∨ encoding ≠ "" ∧ encoding ≠ "identity" then
      .error (.fetch .notAudio .failed (some host))
    else
      match r.contentLength, r.transferEncoding with
      | some declared, none =>
        match F.py.int declared with
        | none => .error (.fetch .refused .failed (some host))
        | some length =>
          if F.maxBytes < length then .error (.fetch .tooLarge .failed (some host))
          else .ok ⟨host, contentType, some length⟩
      | _, _ => .ok ⟨host, contentType, none⟩

end Fetcher

/-- One `read1` of the body. -/
inductive Read where
  | bytes (length : ℕ)
  | timedOut
  | broken
  | closed

/-- `FetchResponse.chunks`: the lengths it yields, and how it ends. A read of
no bytes is the end of the body. -/
def chunks (F : Fetcher) (host : String) (contentLength : Option ℤ) :
    List Read → ℕ → List ℕ × Except Failure Unit
  | [], received | .bytes 0 :: _, received =>
    if contentLength.all (· = (received : ℤ)) then ([], .ok ())
    else ([], .error (.fetch .interrupted .retry (some host)))
  | .timedOut :: _, _ => ([], .error (.fetch .timeout .retry (some host)))
  | .broken :: _, _ => ([], .error (.fetch .interrupted .retry (some host)))
  | .closed :: _, _ => ([], .error .stopped)
  | .bytes (n + 1) :: reads, received =>
    if F.maxBytes < received + (n + 1) then ([], .error (.fetch .tooLarge .failed (some host)))
    else
      let (yielded, out) := chunks F host contentLength reads (received + (n + 1))
      ((n + 1) :: yielded, out)

end Earshot.Fetching
