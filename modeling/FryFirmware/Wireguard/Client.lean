import FryFirmware.Wireguard.ProvisionProperties
import FryFirmware.Wireguard.Routes
import Mathlib.Data.List.Basic
import Mathlib.Tactic.Common

/-!
# The provisioning client

`tick` of `src/esp32/wg_provision_client.cpp`, with `classifyWgFetch` and
`wgRetryDelayMs` of `lib/fry_core/wg_provision.cpp`. `unsigned long` has 32 bits.
-/

set_option autoImplicit false

namespace FryFirmware.Wireguard

open Lib Config

/-! ## Outcomes and delays -/

inductive WgFetchOutcome where
  | ok
  | noToken
  | noHeap
  | noClock
  | transientError
  | unauthorized401
  | forbidden403
  | conflict409
  | rateLimited429
  | otherClientError4xx
  | serverError5xx
  deriving DecidableEq, Repr

def classifyWgFetch (hasToken heapOk clockOk : Bool) (httpStatus : Int32) : WgFetchOutcome :=
  if !hasToken then .noToken
  else if !heapOk then .noHeap
  else if !clockOk then .noClock
  else if httpStatus ≥ 200 && httpStatus < 300 then .ok
  else if httpStatus = 401 then .unauthorized401
  else if httpStatus = 403 then .forbidden403
  else if httpStatus = 409 then .conflict409
  else if httpStatus = 429 then .rateLimited429
  else if httpStatus ≥ 400 && httpStatus < 500 then .otherClientError4xx
  else if httpStatus ≥ 500 then .serverError5xx
  else .transientError

def wgRetryDelayMs (outcome : WgFetchOutcome) (attemptNumber retryAfterHeaderS : UInt32) :
    UInt32 :=
  match outcome with
  | .noToken | .noHeap => 60000
  | .noClock =>
      let delayMs : UInt32 := 5000 <<< (if attemptNumber < 4 then attemptNumber else 4)
      if delayMs > 60000 then 60000 else delayMs
  | .unauthorized401 => 900000
  | .forbidden403 => 21600000
  | .conflict409 | .rateLimited429 =>
      if retryAfterHeaderS > 0 then
        let ms : UInt64 := retryAfterHeaderS.toUInt64 * 1000
        let ms := if ms < 60000 then 60000 else ms
        let ms := if ms > 86400000 then 86400000 else ms
        ms.toUInt32
      else 3600000
  | .otherClientError4xx => 21600000
  | .transientError | .serverError5xx | .ok =>
      let shift : UInt32 := if attemptNumber > 32 then 32 else attemptNumber
      let ms : UInt64 := 30000 <<< shift.toUInt64
      let ms := if ms > 1800000 || shift = 32 then 1800000 else ms
      ms.toUInt32

/-! ## From a response to the store -/

/-- The first octet from the low byte to the high one. -/
def arduinoIpToHostOrder (arduinoOrder : UInt32) : UInt32 :=
  (arduinoOrder &&& 0xFF) <<< 24 ||| (arduinoOrder &&& 0xFF00) <<< 8 |||
    (arduinoOrder &&& 0xFF0000) >>> 8 ||| (arduinoOrder >>> 24 &&& 0xFF)

def stationOf (localIP gatewayIP subnetMask : UInt32) : Station where
  ip := arduinoIpToHostOrder localIP
  bits := maskToPrefix (arduinoIpToHostOrder subnetMask)
  gateway := arduinoIpToHostOrder gatewayIP

/-- The plan that `tick` makes of an accepted response. -/
def planResponse (cfg : WgProvisionConfig) (sta : Station) : Option WgRoutePlan :=
  planWgRoutes (some cfg.addressCidr) (cfg.allowedIps.map some) sta

/-- What `tick` hands to `setWgProvisioned`. -/
def responseOf (cfg : WgProvisionConfig) (plan : WgRoutePlan) : Response where
  peerPub := cfg.serverPub
  psk := if cfg.hasPsk then cfg.psk else []
  endpointHost := cfg.endpointHost
  endpointPort := cfg.endpointPort
  addrCidr := cfg.addressCidr
  allowedCsv := allowedCsv plan.allowedCidr
  keepaliveS := cfg.keepaliveS

/-! ## One pass -/

/-- The statics of the module, and the store. -/
structure Client where
  nextAttemptMs : UInt32 := 0
  attemptNumber : UInt32 := 0
  store : Vpn := {}
  deriving DecidableEq, Repr

/-- What a pass meets on its way: the keys it would generate (none where the point
multiplication fails), the two key writes, whether a connection begins, what `POST`
returns with its `Retry-After`, and the response as far as it is JSON. -/
structure Circumstances where
  hasToken : Bool
  heapOk : Bool
  clockOk : Bool
  keys : Option (Text × Text)
  privKept : Bool
  pubKept : Bool
  begins : Bool
  posted : Int32
  retryAfterS : UInt32
  body : Option WgProvisionRaw
  station : Station
  epochS : UInt32
  fates : List Fate

/-- The keys that are there, or new ones. -/
def ensureKeypair (store : Vpn) (on : Circumstances) : Option Vpn :=
  if store.getWgPriv.length = 44 ∧ (store.wgPub.getD []).length = 44 then some store
  else
    on.keys.map fun (priv, pub) =>
      { store with
        wgPriv := if on.privKept then some priv else store.wgPriv
        wgPub := if on.pubKept then some pub else store.wgPub }

/-- The store after the keys, the HTTP status, the accepted configuration, and the
value of the header. -/
def fetch (store : Vpn) (on : Circumstances) : Vpn × Int32 × Option WgProvisionConfig × UInt32 :=
  if on.hasToken && on.heapOk && on.clockOk then
    match ensureKeypair store on with
    | none => (store, -1, none, 0)
    | some store =>
        if !on.begins then (store, -1, none, 0)
        else if on.posted > 0 && on.posted < 300 then
          (store, on.posted, (on.body.map validateWgProvision).filter (·.ok), 0)
        else (store, on.posted, none, on.retryAfterS)
  else (store, -1, none, 0)

inductive Pass where
  | configured
  | waiting
  | provisioned (response : Response)
  | deferred (delayMs : UInt32)
  deriving DecidableEq, Repr

/-- `tick`; `none` where planning the routes does not end. -/
def tick (c : Client) (now : UInt32) (on : Circumstances) : Option (Pass × Client) :=
  if c.store.hasVpnConfig then some (.configured, c)
  else if c.nextAttemptMs ≠ 0 && now < c.nextAttemptMs then some (.waiting, c)
  else
    let (store, httpStatus, accepted, retryAfterS) := fetch c.store on
    match accepted with
    | some cfg =>
        (planResponse cfg on.station).map fun plan =>
          let response := responseOf cfg plan
          (.provisioned response,
            { nextAttemptMs := 0, attemptNumber := 0
              store := commit response on.epochS on.fates store })
    | none =>
        let outcome := classifyWgFetch on.hasToken on.heapOk on.clockOk httpStatus
        let delayMs := wgRetryDelayMs outcome c.attemptNumber retryAfterS
        some (.deferred delayMs,
          { nextAttemptMs := now + delayMs
            attemptNumber :=
              if c.attemptNumber ≠ 0xFFFFFFFF then c.attemptNumber + 1 else c.attemptNumber
            store })

end FryFirmware.Wireguard
