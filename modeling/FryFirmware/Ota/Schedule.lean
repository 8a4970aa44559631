import Mathlib.Algebra.Ring.Nat
import Mathlib.Data.List.Basic
import Mathlib.Tactic.Common

/-!
# When the ESP8266 asks for the update manifest

`src/core/ota_client.cpp` (`tick`, `afterCheck`, `holdForTimeWait`,
`tryMarkValid`) with `lib/fry_core/ota_first_check.h`, `ota_retry.h`,
`ota_timewait.h`, `ota_hold_release.h` and `tls_boot_gate.h`. All times are
readings of the 32-bit millisecond counter.
-/

set_option autoImplicit false

namespace FryFirmware.Ota

def OTA_CHECK_MS : UInt32 := 21600000
def kOtaHeapRetryMs : UInt32 := 600000
def kOtaHeapRetryMax : Nat := 6
def kOtaFirstCheckMinUptimeMs : UInt32 := 20000
def kOtaFirstCheckAfterFirstTickMs : UInt32 := 10000
def kOtaFirstCheckRegSlotMs : UInt32 := 4100
def kBootAsyncEventDoneMs : UInt32 := 9000
def kAssocToDetectLeadMs : UInt32 := 2500
def kOtaTimeWaitMaxHoldMs : UInt32 := 130000
def kOtaHoldReleaseFree : UInt32 := 42280
def kOtaHoldReleaseBlock : UInt32 := 36816
def kMarkValidSettleMs : UInt32 := 660000

/-- `otaNextCheckDelayMs`: the delay and the retry counter after the call. -/
def otaNextCheckDelayMs (refused : Bool) (retries : Nat) (normalMs : UInt32) : UInt32 × Nat :=
  if !refused then (normalMs, 0)
  else if retries ≥ kOtaHeapRetryMax then (normalMs, retries)
  else (if kOtaHeapRetryMs < normalMs then kOtaHeapRetryMs else normalMs, retries + 1)

def otaFirstCheckWaitMs (nowMs firstTickMs : UInt32) : UInt32 :=
  let earliest := firstTickMs + kOtaFirstCheckAfterFirstTickMs
  let earliest := if earliest < kOtaFirstCheckMinUptimeMs then kOtaFirstCheckMinUptimeMs else earliest
  if nowMs ≥ earliest then 0 else earliest - nowMs

/-- `static_cast<int32_t>(ahead) > 0` and not more than the lead of an
association over its detection. -/
def anchorAhead (ahead : UInt32) : Bool :=
  ahead ≠ 0 && ahead.toNat < 2 ^ 31 && ahead ≤ kAssocToDetectLeadMs

/-- The wait of `otaFirstCheckAfterConnectWaitMs` and of `tlsConnectWaitMs`, which
differ in their window only. -/
def waitAfterConnect (window nowMs : UInt32) : Option UInt32 → UInt32
  | none => window
  | some anchorMs =>
      if anchorAhead (anchorMs - nowMs) then anchorMs - nowMs + window
      else if nowMs - anchorMs ≥ window then 0
      else window - (nowMs - anchorMs)

def otaFirstCheckAfterConnectWaitMs (nowMs : UInt32) (anchor : Option UInt32) : UInt32 :=
  waitAfterConnect (kBootAsyncEventDoneMs + kOtaFirstCheckRegSlotMs) nowMs anchor

def tlsConnectWaitMs (nowMs : UInt32) (anchor : Option UInt32) : UInt32 :=
  waitAfterConnect kBootAsyncEventDoneMs nowMs anchor

inductive TwHold where
  | proceed
  | hold
  deriving DecidableEq, Repr

def decideTimeWaitHold (twPcbs heldMs maxHoldMs : UInt32) : TwHold :=
  if twPcbs = 0 then .proceed
  else if heldMs ≥ maxHoldMs then .proceed else .hold

def decideHoldRelease (pcbs heldMs maxHoldMs freeNow blockNow : UInt32) : TwHold :=
  if decideTimeWaitHold pcbs heldMs maxHoldMs = .proceed then .proceed
  else if freeNow ≥ kOtaHoldReleaseFree ∧ blockNow ≥ kOtaHoldReleaseBlock then .proceed
  else .hold

/-- The two static variables of `holdForTimeWait`. -/
structure Hold where
  holding : Bool := false
  since : UInt32 := 0
  deriving DecidableEq, Repr

/-- What one `tick` finds outside: the counter, the connect anchor, the counter
again inside the TLS gate, lwIP's closing connections, the heap, and what
`checkNow` will report. -/
structure Tick where
  now : UInt32
  anchor : Option UInt32
  gateNow : UInt32
  timeWaitPcbs : UInt32
  closingPcbs : UInt32
  freeHeap : UInt32
  maxFreeBlock : UInt32
  heapRefused : Bool
  readFailed : Bool
  deriving DecidableEq, Repr

/-- `holdForTimeWait`: its variables after the call and whether the check is held. -/
def holdForTimeWait (h : Hold) (i : Tick) : Hold × Bool :=
  let pcbs := i.timeWaitPcbs + i.closingPcbs
  let heldMs := if h.holding then i.now - h.since else 0
  if decideTimeWaitHold pcbs heldMs kOtaTimeWaitMaxHoldMs = .hold then
    if decideHoldRelease pcbs heldMs kOtaTimeWaitMaxHoldMs i.freeHeap i.maxFreeBlock = .proceed then
      ({ h with holding := false }, false)
    else (if h.holding then h else ⟨true, i.now⟩, true)
  else ({ h with holding := false }, false)

structure Scheduler where
  lastCheckMs : UInt32 := 0
  firstCheckDone : Bool := false
  heapRetries : Nat := 0
  readRetries : Nat := 0
  hold : Hold := {}
  confirmPending : Bool := false
  deriving DecidableEq, Repr

/-- `afterCheck`, with the flags `checkNow` left. -/
def afterCheck (s : Scheduler) (now : UInt32) (heapRefused readFailed : Bool) : Scheduler :=
  let heap := otaNextCheckDelayMs heapRefused s.heapRetries OTA_CHECK_MS
  let read := otaNextCheckDelayMs readFailed s.readRetries OTA_CHECK_MS
  let wait := if read.1 < heap.1 then read.1 else heap.1
  { s with
    heapRetries := heap.2
    readRetries := read.2
    lastCheckMs := now - (OTA_CHECK_MS - wait) }

/-- A manifest check from `tick`: `checkNow` runs, then `afterCheck`. -/
def check (s : Scheduler) (i : Tick) : Scheduler :=
  afterCheck { s with firstCheckDone := true, lastCheckMs := i.now } i.now i.heapRefused i.readFailed

/-- `tick`: the scheduler after the call and whether it started a check. -/
def tick (s : Scheduler) (i : Tick) : Scheduler × Bool :=
  if !s.firstCheckDone then
    let s := if s.lastCheckMs = 0 then { s with lastCheckMs := i.now } else s
    if otaFirstCheckWaitMs i.now s.lastCheckMs ≠ 0 then (s, false)
    else if otaFirstCheckAfterConnectWaitMs i.now i.anchor ≠ 0 then (s, false)
    else if tlsConnectWaitMs i.gateNow i.anchor ≠ 0 then (s, false)
    else
      let held := holdForTimeWait s.hold i
      let s := { s with hold := held.1 }
      if held.2 then (s, false) else (check s i, true)
  else if i.now - s.lastCheckMs < OTA_CHECK_MS then (s, false)
  else
    let held := holdForTimeWait s.hold i
    let s := { s with hold := held.1 }
    if held.2 then (s, false) else (check s i, true)

/-- The end of `tryMarkValid`, where it fires. -/
def markValid (s : Scheduler) : Scheduler :=
  { s with confirmPending := false, firstCheckDone := false }

def tryMarkValid (s : Scheduler) (anyResponse : Bool) (now : UInt32) : Scheduler :=
  if !s.confirmPending then s
  else if !(anyResponse && decide (now ≥ kMarkValidSettleMs)) then s
  else markValid s

/-! ## Runs -/

/-- `markValid` stands for a `tryMarkValid` that fires, at whatever moment. -/
inductive Event where
  | tick (i : Tick)
  | markValid

/-- The last check: when it started, and whether `afterCheck` brought the next
one forward. -/
structure Check where
  start : UInt32
  early : Bool
  deriving DecidableEq, Repr

/-- The scheduler and what happened to it: the first tick, the first tick at a
nonzero time, the last check, whether `tryMarkValid` fired since, and the first
tick after that. -/
structure History where
  scheduler : Scheduler := {}
  firstTick : Option UInt32 := none
  anchored : Option UInt32 := none
  last : Option Check := none
  rearmed : Bool := false
  resumed : Option UInt32 := none
  deriving DecidableEq, Repr

/-- A check with this outcome still has a short retry left. -/
def hasRetry (s : Scheduler) (heapRefused readFailed : Bool) : Bool :=
  (heapRefused && s.heapRetries < kOtaHeapRetryMax) ||
    (readFailed && s.readRetries < kOtaHeapRetryMax)

def History.tickStep (w : History) (i : Tick) : History :=
  let result := tick w.scheduler i
  let w' :=
    { w with
      scheduler := result.1
      firstTick := w.firstTick.or (some i.now)
      anchored := w.anchored.or (if i.now = 0 then none else some i.now) }
  if result.2 then
    { w' with
      last := some ⟨i.now, hasRetry w.scheduler i.heapRefused i.readFailed⟩
      rearmed := false
      resumed := none }
  else { w' with resumed := if w.rearmed then w.resumed.or (some i.now) else none }

def History.step (w : History) : Event → History
  | .tick i => w.tickStep i
  | .markValid =>
      { w with scheduler := Ota.markValid w.scheduler, rearmed := w.last.isSome, resumed := if w.rearmed then w.resumed else none }

def History.run (w : History) (events : List Event) : History := events.foldl History.step w

/-- The times of the ticks of a run. -/
def times (events : List Event) : List UInt32 :=
  events.filterMap fun
    | .tick i => some i.now
    | .markValid => none

end FryFirmware.Ota
