/-
The in-flight request-body budget (`config/inflight-body-budget.ts`):
configuration, what a request asks for, and what the middleware decides.

# Numbers

Byte counts are integers. The share is a fraction; the source computes
its products in doubles, here they are exact. What JavaScript's `Number`
makes of a header and the client key of an address are the platform's and
are parameters of the configuration.

# Left out

The log line and the metrics status of a dropped connection, and the
`Retry-After` header: nothing in the accounting reads them.
-/
import Mathlib.Data.Rat.Floor
import OpenWA.Lib.Record
import OpenWA.Lib.Text

namespace OpenWA.Budget

/-- What `Number(text)` is, as far as the middleware can tell. -/
inductive JsNumber
  | nan
  | safeInteger (n : Int)
  | other
deriving DecidableEq

/-- `createInflightBodyBudget`: its arguments and what it calls. -/
structure Config where
  budgetBytes : Nat
  perClientShare : Option ℚ
  bodyLimitBytes : Option Nat
  requestTimeoutMs : Option Int
  /-- The `classify` option is given. -/
  classify : Bool
  number : Text → JsNumber
  limiterKeyForIp : Text → Text

/-- A request as the middleware sees it. -/
structure Request where
  contentLength : Option Text
  transferEncoding : Option Text
  contentEncoding : Option Text
  /-- `resolveClientIp`. -/
  clientIp : Text
  /-- What `classify` would return for it. -/
  classified : Option Text
  /-- A response was started before the middleware refuses. -/
  headersSent : Bool

/-- `STALL_TIMEOUT_MS`. -/
def stallTimeoutMs : Int := 15000

/-- `UNDECLARED_OPENING_RESERVATION_BYTES`. -/
def undeclaredOpeningReservationBytes : Nat := 1024 * 1024

/-- `FALLBACK_LIMIT_BYTES`. -/
def fallbackLimitBytes : Nat := 25 * 1024 ^ 2

/-- `MAX_TRACKED_CLIENTS`. -/
def maxTrackedClients : Nat := 10000

namespace Config

variable (cfg : Config)

/-- The share of the budget one client may take. -/
def share : ℚ := min 1 (max ((1 : ℚ) / 2 ^ 52) (cfg.perClientShare.getD (1 / 2)))

/-- `perClientCap`. -/
def perClientCap : Nat := max 1 ((cfg.budgetBytes : ℚ) * cfg.share).floor.toNat

/-- `bodyLimitBytes`. -/
def bodyLimit : Nat := cfg.bodyLimitBytes.getD fallbackLimitBytes

/-- `anonPool`. -/
def anonPool : Nat := min cfg.budgetBytes (max (2 * cfg.bodyLimit) (cfg.budgetBytes / 4))

/-- `anonClientCap`. -/
def anonClientCap : Nat :=
  max (min cfg.bodyLimit cfg.anonPool) ((cfg.anonPool : ℚ) * cfg.share).floor.toNat

/-- `undeclaredReservation`. -/
def undeclaredReservation : Nat := max 1 (min undeclaredOpeningReservationBytes cfg.budgetBytes)

/-- The request timeout, Node's own by default. -/
def timeout : Int := cfg.requestTimeoutMs.getD 300000

/-- The cap of a client of the tier. -/
def shareCap (anonymous : Bool) : Nat :=
  if anonymous then cfg.anonClientCap else cfg.perClientCap

/-- The most a request of a tier is charged; `none` is `Infinity`. -/
def ceiling (anonymous : Bool) : Option Nat :=
  if anonymous then some cfg.bodyLimit else none

end Config

/-- `Math.min(n, ceiling)`. -/
def capped (ceiling : Option Nat) (n : Nat) : Nat :=
  match ceiling with
  | none => n
  | some c => min n c

theorem capped_le (ceiling : Option Nat) (n : Nat) : capped ceiling n ≤ n := by
  cases ceiling with
  | none => exact le_refl n
  | some c => exact min_le_left n c

/-- A well-formed `Content-Length`. -/
def parseDeclaredLength (cfg : Config) (raw : Option Text) : Option Nat :=
  match raw with
  | none => none
  | some text =>
    match cfg.number (Text.trim text) with
    | .safeInteger n => if 0 ≤ n then some n.toNat else none
    | _ => none

/-- The parser takes it that there is a body. -/
def bodyIndicated (cfg : Config) (req : Request) : Bool :=
  req.transferEncoding.isSome
    || req.contentLength.any fun text => cfg.number text ≠ .nan

/-- A body is announced in another encoding than `identity`. -/
def compressed (cfg : Config) (req : Request) : Bool :=
  let encoding := Text.toLowerCase (Text.trim (req.contentEncoding.getD []))
  bodyIndicated cfg req && encoding ≠ [] && encoding ≠ "identity".toList

/-- How a request is turned away. -/
inductive Refusal
  | compressed
  | tooLarge
  | busy
deriving DecidableEq

/-- The status of a refusal. -/
def Refusal.status : Refusal → Nat
  | .compressed => 415
  | .tooLarge => 413
  | .busy => 503

/-- The message of a refusal. -/
def Refusal.message : Refusal → Text
  | .compressed => "Compressed request bodies are not supported".toList
  | .tooLarge => "Request body exceeds what this server can accept".toList
  | .busy => "Too much request body data in flight; retry later".toList

/-- The error name of a refusal. -/
def Refusal.error : Refusal → Text
  | .compressed => "Unsupported Media Type".toList
  | .tooLarge => "Payload Too Large".toList
  | .busy => "Service Unavailable".toList

/-- A request that holds a reservation: what its closures close over.
`received` is counted from admission. -/
structure Held where
  declared : Option Nat
  anonymous : Bool
  clientKey : Text
  reserved : Nat
  released : Bool
  /-- The stall timer is set. -/
  armed : Bool
  lastReceived : Nat
  admittedAt : Int
  lastProgress : Int
deriving DecidableEq

/-- What the middleware does with a request. -/
inductive Outcome
  /-- Turned away; without an answer when a response had started. -/
  | refused (refusal : Refusal) (answered : Bool)
  /-- No body: passed on, not tracked. -/
  | untracked
  | tracked (held : Held)

/-- The counters. -/
structure Counters where
  inFlightBytes : Int
  anonInFlight : Int
  clientInFlight : Record Text Int

/-- The bytes of a client in flight. -/
def Counters.client (c : Counters) (key : Text) : Int := (c.clientInFlight.get key).getD 0

/-- `classify?.(req, clientIp)`. -/
def keyId (cfg : Config) (req : Request) : Option Text :=
  if cfg.classify then req.classified else none

/-- The key of the client in the map: of its API key or of its address. -/
def clientKey (cfg : Config) (req : Request) : Text :=
  match keyId cfg req with
  | some id => "key:".toList ++ id
  | none => cfg.limiterKeyForIp req.clientIp

/-- `reserved` before admission: the declared length, a placeholder for a
chunked body, nothing otherwise. -/
def opening (cfg : Config) (req : Request) : Nat :=
  match parseDeclaredLength cfg req.contentLength with
  | some n => n
  | none =>
    if req.transferEncoding.isSome then cfg.undeclaredReservation else 0

/-- A declared body that would be refused on an idle server. -/
def neverFits (cfg : Config) (declared : Option Nat) (anonymous : Bool) (charge : Nat) : Bool :=
  declared.any fun n => n > cfg.budgetBytes || charge > cfg.shareCap anonymous
    || (anonymous && charge > cfg.anonPool)

/-- The request does not fit now. -/
def busyNow (cfg : Config) (c : Counters) (req : Request) (anonymous : Bool)
    (key : Text) (reserved charge : Nat) : Bool :=
  c.inFlightBytes + reserved > cfg.budgetBytes
    || c.client key + charge > cfg.shareCap anonymous
    || (anonymous && c.anonInFlight + charge > cfg.anonPool)
    || ((keyId cfg req).isNone && c.clientInFlight.size ≥ maxTrackedClients
      && (c.clientInFlight.get key).isNone)

/-- The middleware up to the reservation. -/
def middleware (cfg : Config) (c : Counters) (req : Request) (now : Int) :
    Outcome :=
  let declared := parseDeclaredLength cfg req.contentLength
  let reserved := opening cfg req
  let anonymous := cfg.classify && (keyId cfg req).isNone
  let key := clientKey cfg req
  let charge := capped (cfg.ceiling anonymous) reserved
  if compressed cfg req then .refused .compressed (!req.headersSent)
  else if reserved = 0 then .untracked
  else if neverFits cfg declared anonymous charge then
    .refused .tooLarge (!req.headersSent)
  else if busyNow cfg c req anonymous key reserved charge then
    .refused .busy (!req.headersSent)
  else
    .tracked
      { declared := declared, anonymous := anonymous, clientKey := key,
        reserved := charge, released := false, armed := true,
        lastReceived := 0, admittedAt := now, lastProgress := now }

end OpenWA.Budget
