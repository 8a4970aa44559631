import FryFirmware.Identity.MinerKey
import Mathlib.Data.List.Basic
import Mathlib.Tactic.Common

/-!
# Registration and the stale-token heal

The store accesses of `src/core/hardwareapi_client.cpp`, with `stale_token_heal.h`,
`heal_fix_rules.h` and `classifyRegistration` of `reg_result.cpp`. What the server
and the clock answer is an argument.
-/

set_option autoImplicit false

namespace FryFirmware.Identity

open Lib Config
open Lib.Program (get put tell)

/-! ## Rules -/

def kHealMinPlausibleEpoch : UInt32 := 1600000000
def kHealMaxPlausibleEpoch : UInt32 := 2147483647
def kHealWindowSeconds : UInt32 := 6 * 3600
def kHealReplyMaxBytes : Int := 2048
def kHealLatchReleaseMs : UInt32 := kHealWindowSeconds * 1000

def isStaleTokenSignature (httpCode : Int) (deviceTokenSent : Bool) : Bool :=
  deviceTokenSent && httpCode = 404

def healWindowOpen (healedThisBoot : Bool) (lastHealEpoch nowEpoch : UInt32) : Bool :=
  if healedThisBoot ∨ nowEpoch < kHealMinPlausibleEpoch ∨ nowEpoch > kHealMaxPlausibleEpoch then false
  else if lastHealEpoch = 0 then true
  else if lastHealEpoch > nowEpoch + kHealWindowSeconds then true
  else nowEpoch ≥ lastHealEpoch && nowEpoch - lastHealEpoch ≥ kHealWindowSeconds

def pairsMatchByteForByte : Text → Text → Bool
  | [], [] => true
  | a :: as, b :: bs => if a ≠ b then false else pairsMatchByteForByte as bs
  | _, _ => false

inductive PairRecovery where
  | dropShadows
  | restoreShadows
  deriving DecidableEq, Repr

def recoveryFor (installIdLive deviceTokenLive : Bool) : PairRecovery :=
  if installIdLive && deviceTokenLive then .dropShadows else .restoreShadows

def healTimeUsable (t : Int) : Bool :=
  t ≥ kHealMinPlausibleEpoch.toNat && t ≤ kHealMaxPlausibleEpoch.toNat

def healReplyReadable (contentLength : Int) : Bool := contentLength > 0 && contentLength ≤ kHealReplyMaxBytes

def healLatchExpired (uptimeSinceBurnMs : UInt32) : Bool := uptimeSinceBurnMs ≥ kHealLatchReleaseMs

def healTokenUsable (tokenLength : Nat) : Bool := tokenLength > 0

inductive RegClass where
  | ok
  | unauthorized
  | forbidden
  | conflict
  | otherClientError
  | unreachable
  deriving DecidableEq, Repr

def classifyRegistration (http : Int) : RegClass :=
  if http ≥ 200 ∧ http < 300 then .ok
  else if http = 401 then .unauthorized
  else if http = 403 then .forbidden
  else if http = 409 then .conflict
  else if http = 429 then .unreachable
  else if http ≥ 400 ∧ http < 500 then .otherClientError
  else .unreachable

def regClassRetryQuickly (c : RegClass) : Bool := c = .unreachable

/-! ## The shadow pair -/

/-- `recoveryFor` of the live pair. -/
def liveRecovery (s : Store) : PairRecovery :=
  recoveryFor (s.getInstallId.length > 0) (s.getDeviceToken.length > 0)

/-- `stashTokenPair`. A store that cannot be opened is a first write that fails. -/
def stashTokenPair : Prog Bool := do
  let w ← get
  let id := w.store.getInstallId
  let tok := w.store.getDeviceToken
  if id.length = 0 ∨ tok.length = 0 then pure false
  else do
    let wroteId ← put (.putShadowId id)
    let wrote ← if wroteId then put (.putShadowToken tok) else pure false
    let r ← get
    let rid := r.store.getShadowId
    let rtok := r.store.getShadowToken
    pure (wrote && rid.length > 0 && rtok.length > 0 && pairsMatchByteForByte rid id &&
      pairsMatchByteForByte rtok tok)

def dropTokenPairShadow : Prog Unit := do
  let w ← get
  if liveRecovery w.store ≠ .dropShadows then pure ()
  else if !(w.store.shdwInstallId.isSome || w.store.shdwDevToken.isSome) then pure ()
  else do
    let _ ← put .removeShadowId
    let _ ← put .removeShadowToken

def restoreTokenPair : Prog Bool := do
  let w ← get
  let id := w.store.getShadowId
  let tok := w.store.getShadowToken
  if id.length = 0 ∨ tok.length = 0 then pure false
  else do
    let _ ← put (.setInstallId .shadow id)
    let _ ← put (.setDeviceToken .shadow tok)
    let r ← get
    if !pairsMatchByteForByte id r.store.getInstallId ||
        !pairsMatchByteForByte tok r.store.getDeviceToken then pure false
    else do
      dropTokenPairShadow
      pure true

def recoverOrphanedTokenPair : Prog Unit := do
  let w ← get
  if (w.store.getInstallId.length > 0 ∨ w.store.getDeviceToken.length > 0) ∧
      liveRecovery w.store = .dropShadows then dropTokenPairShadow
  else do let _ ← restoreTokenPair

/-! ## The heal -/

/-- The answer to the heal's request: whether it could be sent, the status, the
announced length, and the `device_token` of the body (empty: none). -/
structure HealReply where
  begun : Bool
  code : Int
  size : Int
  token : Text
  deriving DecidableEq, Repr

def isSuccess (code : Int) : Bool := code ≥ 200 && code < 300

/-- What the heal meets: the clocks, its random bytes and its reply. -/
structure HealInput where
  millis : UInt32
  time : Int
  random : Random16
  reply : HealReply

/-- The epoch the heal works with; 0 for a clock it does not trust. -/
def HealInput.epochNow (h : HealInput) : UInt32 :=
  if healTimeUsable h.time then UInt32.ofNat h.time.toNat else 0

/-- The token the heal takes from its reply. -/
def HealReply.usableToken (reply : HealReply) : Text :=
  if reply.begun && isSuccess reply.code && healReplyReadable reply.size then reply.token else []

/-- From the cleared pair on: a fresh installation, or the restored one. -/
def healRetry (h : HealInput) : Prog Bool := do
  clearInstallation
  let newId ← ensureInstallId h.random
  let token := h.reply.usableToken
  when (h.reply.begun && isSuccess h.reply.code && h.reply.token.length > 0)
    (tell (.issue newId h.reply.token))
  if !(h.reply.begun && isSuccess h.reply.code && healTokenUsable token.length) then do
    let _ ← restoreTokenPair
    pure false
  else do
    when (token.length > 0) (do let _ ← put (.setDeviceToken .fresh token))
    let w ← get
    when (!w.store.getKeyOk) (do let _ ← put (.setKeyOk true))
    pure true

/-- The heal once its window is open: stash, stamp, and the retry. -/
def healInWindow (h : HealInput) : Prog Bool := do
  let stashed ← stashTokenPair
  if !stashed then pure false
  else do
    tell (.latchHeal h.millis)
    let _ ← put (.putHealAt h.epochNow)
    let w ← get
    if w.store.getHealAt ≠ h.epochNow then pure false else healRetry h

def healStaleTokenIfDue (board : Board) (h : HealInput) (code : Int) (tokenSent : Bool) : Prog Bool := do
  let w ← get
  when (w.ram.staleTokenHealed && healLatchExpired (h.millis - w.ram.staleTokenHealedAtMs))
    (tell .releaseLatch)
  let w ← get
  if w.ram.staleTokenHealed || !isStaleTokenSignature code tokenSent then pure false
  else if w.store.getApiBase board.hardwareapiBase = board.hardwareapiBase then pure false
  else if !healWindowOpen w.ram.staleTokenHealed w.store.getHealAt h.epochNow then pure false
  else healInWindow h

/-! ## Registration, reports and leases -/

/-- The answer to a registration: the status (negative: none came) and the
`device_token` of the body (empty: none). -/
structure Answer where
  code : Int
  token : Text
  deriving DecidableEq, Repr

structure Registration where
  freshSalt : Random16
  random : Random16
  answers : List Answer
  heal : HealInput

/-- The attempts of one registration for `installId`, of which there are these
answers. They end early where no client can be allocated. -/
def registerAttempts (board : Board) (h : HealInput) (installId : Text) (tokenSent : Bool) :
    List Answer → Prog Bool
  | [] => pure false
  | answer :: rest =>
      if classifyRegistration answer.code = .ok then do
        when (answer.token.length > 0) (do
          tell (.issue installId answer.token)
          let _ ← put (.setDeviceToken .fresh answer.token))
        let w ← get
        when (!w.store.getKeyOk) (do let _ ← put (.setKeyOk true))
        pure true
      else if !regClassRetryQuickly (classifyRegistration answer.code) then
        healStaleTokenIfDue board h answer.code tokenSent
      else registerAttempts board h installId tokenSent rest

def registerInstallation (board : Board) (r : Registration) : Prog Bool := do
  let minerKey ← ensureMinerKey board r.freshSalt
  if minerKey = [] then pure false
  else do
    recoverOrphanedTokenPair
    let installId ← ensureInstallId r.random
    tell .attempt
    let w ← get
    let deviceTokenSent : Bool := w.store.getDeviceToken.length > 0
    registerAttempts board r.heal installId deviceTokenSent (r.answers.take 2)

/-- `registerInstallation` once there is a key. -/
def registerKeyed (board : Board) (r : Registration) : Prog Bool := do
  recoverOrphanedTokenPair
  let installId ← ensureInstallId r.random
  tell .attempt
  let w ← get
  let deviceTokenSent : Bool := w.store.getDeviceToken.length > 0
  registerAttempts board r.heal installId deviceTokenSent (r.answers.take 2)

/-- The class that is left when the attempts are over. -/
def lastClass (cls : RegClass) : List Answer → RegClass
  | [] => cls
  | answer :: rest =>
      if regClassRetryQuickly (classifyRegistration answer.code) then
        lastClass (classifyRegistration answer.code) rest
      else classifyRegistration answer.code

/-- `putPoc`; `synced`: the clock is set, `code`: the status of the report. -/
def putPoc (board : Board) (freshSalt : Random16) (synced : Bool) (code : Int) : Prog Unit := do
  let minerKey ← ensureMinerKey board freshSalt
  if minerKey = [] then pure ()
  else if !synced then pure ()
  else do
    let w ← get
    when (isSuccess code && w.ram.staleTokenHealed) dropTokenPairShadow
    let w ← get
    when (isSuccess code && w.ram.shadowPending) (do
      dropTokenPairShadow
      tell .shadowsSettled)

def renewLease (board : Board) (freshSalt random : Random16) : Prog Unit := do
  let minerKey ← ensureMinerKey board freshSalt
  if minerKey = [] then pure ()
  else do let _ ← ensureInstallId random

/-! ## Requests -/

inductive Request where
  | boot (freshSalt : Random16)
  | register (r : Registration)
  | putPoc (freshSalt : Random16) (synced : Bool) (code : Int)
  | renewLease (freshSalt random : Random16)
  | setOwnerKey (key : Text) (transport : KeyTransport)
  | factoryReset

def Request.program (board : Board) : Request → Prog Unit
  | .boot freshSalt => do
      tell .boot
      let _ ← ensureMinerKey board freshSalt
  | .register r => do let _ ← registerInstallation board r
  | .putPoc freshSalt synced code => Identity.putPoc board freshSalt synced code
  | .renewLease freshSalt random => Identity.renewLease board freshSalt random
  | .setOwnerKey key transport => do let _ ← Identity.setOwnerKey board key transport
  | .factoryReset => Identity.factoryReset

/-- A power loss restarts the board. -/
def restart (w : World) : World := Action.boot.apply w

/-- The board after these requests, each with the fates of its writes. -/
def reached (board : Board) (w : World) (requests : List (Request × List Fate)) : World :=
  serveAll Action.apply (Request.program board) restart w requests

/-- Every step of these requests, in order. -/
def steps (board : Board) (w : World) (requests : List (Request × List Fate)) :
    List (Step World Action) :=
  stepsOf Action.apply (Request.program board) restart w requests

end FryFirmware.Identity
