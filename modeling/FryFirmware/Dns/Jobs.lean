import FryFirmware.Dns.Cache
import FryFirmware.Relay.Session

/-!
# Resolver jobs and the relay that shares them

`lib/fry_core/relay_dns.h` (`DnsJobs`) and its callers in
`src/esp32/vpn_wireguard.cpp`. The relay task owns the cache, the reference
counts and the per-slot pointers; each resolver task writes `ip`, `ok` and then
`done` of the job it was started for. A state is what memory holds between two
atomic accesses, so a resolver may run between any two of them.
-/

set_option autoImplicit false

namespace FryFirmware.Dns

open Lib Relay

def kDnsJobs : Nat := 2
def kDnsTtlMs : UInt32 := 300000
def kDnsFailTtlMs : UInt32 := 15000

structure DnsJob where
  host : Host := []
  ip : UInt32 := 0
  ok : Bool := false
  done : Bool := false
  cached : Bool := false
  refs : Nat := 0
  live : Bool := false
  deriving DecidableEq, Repr

abbrev JobId := Fin kDnsJobs

abbrev DnsJobs := JobId → DnsJob

namespace DnsJobs

def find (jobs : DnsJobs) (host : Host) : Option JobId :=
  if host = [] then none
  else (List.finRange kDnsJobs).find? fun k => (jobs k).live && dnsHostEq (jobs k).host host

/-- `begin`: the pool after the call, the job the caller now refers to, and
whether it was created. -/
def begin (jobs : DnsJobs) (host : Host) : DnsJobs × Option JobId × Bool :=
  match find jobs host with
  | some k => (Function.update jobs k { jobs k with refs := (jobs k).refs + 1 }, some k, false)
  | none =>
      if host = [] then (jobs, none, false)
      else if host.length ≥ kDnsHostCap then (jobs, none, false)
      else
        match (List.finRange kDnsJobs).find? fun k => !(jobs k).live with
        | none => (jobs, none, false)
        | some k =>
            (Function.update jobs k
              { host, ip := 0, ok := false, done := false, cached := false, refs := 1, live := true },
              some k, true)

def freeSlot (jobs : DnsJobs) (k : JobId) : DnsJobs := Function.update jobs k {}

def release (jobs : DnsJobs) : Option JobId → DnsJobs
  | none => jobs
  | some k =>
      if !(jobs k).live || (jobs k).refs = 0 then jobs
      else
        let jobs := Function.update jobs k { jobs k with refs := (jobs k).refs - 1 }
        if (jobs k).refs = 0 && (jobs k).cached then freeSlot jobs k else jobs

/-- The cache after a finished job put its answer there. -/
def settle (job : DnsJob) (cache : DnsCache) (now okTtlMs failTtlMs : UInt32) : DnsCache :=
  if job.ok then cache.store job.host job.ip now okTtlMs
  else cache.storeFailure job.host now failTtlMs

/-- `finish`: whether the job is done, the pool and the cache after the call. -/
def finish (jobs : DnsJobs) (job : Option JobId) (cache : DnsCache)
    (now okTtlMs failTtlMs : UInt32) : Bool × DnsJobs × DnsCache :=
  match job with
  | none => (false, jobs, cache)
  | some k =>
      if !(jobs k).live || !(jobs k).done then (false, jobs, cache)
      else if (jobs k).cached then (true, jobs, cache)
      else
        (true, Function.update jobs k { jobs k with cached := true },
          settle (jobs k) cache now okTtlMs failTtlMs)

/-- `finishSlot`: the pool, the cache and the slot's pointer after the call. -/
def finishSlot (jobs : DnsJobs) (slotJob : Option JobId) (cache : DnsCache)
    (now okTtlMs failTtlMs : UInt32) : DnsJobs × DnsCache × Option JobId :=
  match finish jobs slotJob cache now okTtlMs failTtlMs with
  | (false, jobs, cache) => (jobs, cache, slotJob)
  | (true, jobs, cache) => (release jobs slotJob, cache, none)

def sweepJob (jobs : DnsJobs) (k : JobId) (cache : DnsCache) (now okTtlMs failTtlMs : UInt32) :
    DnsJobs × DnsCache :=
  if !(jobs k).live then (jobs, cache)
  else
    let result := finish jobs (some k) cache now okTtlMs failTtlMs
    (if (result.2.1 k).cached && (result.2.1 k).refs = 0 then freeSlot result.2.1 k
      else result.2.1, result.2.2)

end DnsJobs

/-! ## Resolver tasks -/

/-- The next access of a resolver task to its job. -/
inductive TaskPc where
  | resolve
  | writeIp (addr : UInt32)
  | writeOk
  | writeDone
  deriving DecidableEq, Repr

/-- A running `dnsTaskFn`. `name` is the host it was started for. -/
structure Task where
  job : JobId
  name : Host
  pc : TaskPc
  deriving DecidableEq, Repr

/-- What `WiFi.hostByName` returned. -/
structure HostAnswer where
  ok : Bool
  addr : UInt32
  deriving DecidableEq, Repr

/-- One access of the task: the job it is about and where the task goes on, or
`none` when it ends. -/
def Task.advance (task : Task) (job : DnsJob) (answer : HostAnswer) : DnsJob × Option Task :=
  match task.pc with
  | .resolve =>
      (job, some { task with
        pc := if answer.ok && answer.addr ≠ 0 then .writeIp answer.addr else .writeDone })
  | .writeIp addr => ({ job with ip := addr }, some { task with pc := .writeOk })
  | .writeOk => ({ job with ok := true }, some { task with pc := .writeDone })
  | .writeDone => ({ job with done := true }, none)

/-! ## The relay -/

/-- Where the relay task stands inside `needConnect` or `sweep`. -/
inductive Control (n : Nat) where
  | idle
  | looking (i : Fin n)
  | polling (i : Fin n)
  | taking (i : Fin n)
  | sweeping (rest : List JobId)
  deriving DecidableEq

/-- The relay's name resolution with `n` client slots. `clock` counts the
milliseconds since the counter read `base`. -/
structure State (n : Nat) where
  base : UInt32
  clock : Nat := 0
  cache : DnsCache := fun _ => {}
  jobs : DnsJobs := fun _ => {}
  job : Fin n → Option JobId := fun _ => none
  slots : Fin n → Option Slot := fun _ => none
  tasks : List Task := []
  control : Control n := .idle

/-- What `connectTo` met: no usable socket or an immediate failure, a connect in
progress, or one that finished within the call. -/
inductive ConnectAnswer where
  | fails
  | starts (upFd : Int)
  | finishes (upFd : Int) (ok : Bool) (ended : UInt32)

def connectTo (s : Slot) (now : UInt32) : ConnectAnswer → Slot
  | .fails => onConnectResult s false now
  | .starts upFd => onConnectStarted s upFd now
  | .finishes upFd ok ended => onConnectResult (onConnectStarted s upFd now) ok ended

/-- The host of the slot's request, as the C string `s.req.host`. -/
def hostOf (s : Slot) : Host := cString s.req.host

/-- What `serviceSlot` and the timers do to a slot outside `needConnect`. -/
inductive ServiceOp where
  | recv (side : Side) (answer : Relay.RecvAnswer)
  | send (toward : Side) (answer : Relay.SendAnswer)
  | timer (t : Timing)
  | connectResult (ok : Bool)
  | forwardFin (side : Side) (drained : List (List UInt8))

def service (s : Slot) (now : UInt32) : ServiceOp → Slot
  | .recv side answer => (doRecv s side answer now).1
  | .send toward answer => (doSend s toward answer now).1
  | .timer t => onTimer s t now
  | .connectResult ok => if s.phase = .connecting then onConnectResult s ok now else s
  | .forwardFin side drained => (Relay.forwardFin s side drained now).1

inductive Op (n : Nat) where
  | tick (ms : Nat)
  | task (index : Nat) (answer : HostAnswer)
  | sweep
  | sweepJob
  | needConnect (i : Fin n)
  | look (answer : ConnectAnswer) (started : Bool)
  | poll
  | take (answer : ConnectAnswer)
  | service (i : Fin n) (at_ : UInt32) (op : ServiceOp)
  | release (i : Fin n)
  | forceClose (i : Fin n) (why : ForceReason)
  | accept (i : Fin n) (c2u u2c : Memory UInt8 kBufSize) (clientFd : Int) (finGraceMs : UInt32)

namespace State

variable {n : Nat}

/-- The relay's current reading of `millis()`. -/
def now (w : State n) : UInt32 := w.base + UInt32.ofNat w.clock

/-- A resolver task makes its next access. -/
def taskStep (w : State n) (index : Nat) (answer : HostAnswer) : State n :=
  match w.tasks[index]? with
  | none => w
  | some task =>
      let result := task.advance (w.jobs task.job) answer
      { w with
        jobs := Function.update w.jobs task.job result.1
        tasks :=
          match result.2 with
          | some next => w.tasks.set index next
          | none => w.tasks.eraseIdx index }

def settleSlot (w : State n) (i : Fin n) : State n :=
  let result := DnsJobs.finishSlot w.jobs (w.job i) w.cache w.now kDnsTtlMs kDnsFailTtlMs
  { w with
    jobs := result.1
    cache := result.2.1
    job := Function.update w.job i result.2.2 }

def dnsDropSlot (w : State n) (i : Fin n) : State n :=
  { w with jobs := DnsJobs.release w.jobs (w.job i), job := Function.update w.job i none }

def setSlot (w : State n) (i : Fin n) (s : Option Slot) : State n :=
  { w with slots := Function.update w.slots i s }

/-- `dnsStart`: a resolver task for the job, or the job fails at once. -/
def dnsStart (w : State n) (k : JobId) (started : Bool) : State n :=
  if started then { w with tasks := w.tasks ++ [⟨k, (w.jobs k).host, .resolve⟩] }
  else { w with jobs := Function.update w.jobs k { w.jobs k with ok := false, done := true } }

/-- `begin` for slot `i` and the start of its resolver, if one is needed. -/
def beginJob (w : State n) (i : Fin n) (host : Host) (started : Bool) : State n :=
  let result := DnsJobs.begin w.jobs host
  let w := { w with jobs := result.1, job := Function.update w.job i result.2.1 }
  match result.2.1 with
  | none => { w with control := .idle }
  | some k => { if result.2.2 then w.dnsStart k started else w with control := .polling i }

/-- The middle of `needConnect`: cache, failure cache, then a job. -/
def look (w : State n) (i : Fin n) (s : Slot) (answer : ConnectAnswer) (started : Bool) :
    State n :=
  let found := w.cache.lookup (hostOf s) w.now
  let w := { w with cache := found.1 }
  if found.2.isSome then
    { w.setSlot i (connectTo s w.now answer) with control := .idle }
  else if w.cache.blocked (hostOf s) w.now then
    { w.setSlot i (onConnectResult s false w.now) with control := .idle }
  else
    match w.job i with
    | none => w.beginJob i (hostOf s) started
    | some _ => { w with control := .polling i }

/-- The end of `needConnect`: the answer of the slot's finished job. -/
def take (w : State n) (i : Fin n) (k : JobId) (s : Slot) (answer : ConnectAnswer) : State n :=
  let ok := (w.jobs k).ok
  let w := { w.settleSlot i with control := .idle }
  if !ok then w.setSlot i (onConnectResult s false w.now)
  else w.setSlot i (connectTo s w.now answer)

/-- One atomic step. An operation that the relay task cannot perform where it
stands changes nothing. -/
def step (w : State n) : Op n → State n
  | .tick ms => if w.control = .idle then { w with clock := w.clock + ms } else w
  | .task index answer => w.taskStep index answer
  | .sweep =>
      if w.control = .idle then { w with control := .sweeping (List.finRange kDnsJobs) } else w
  | .sweepJob =>
      match w.control with
      | .sweeping [] => { w with control := .idle }
      | .sweeping (k :: rest) =>
          let result := DnsJobs.sweepJob w.jobs k w.cache w.now kDnsTtlMs kDnsFailTtlMs
          { w with jobs := result.1, cache := result.2, control := .sweeping rest }
      | _ => w
  | .needConnect i =>
      match w.slots i with
      | some s =>
          if w.control = .idle ∧ s.phase = .needConnect then
            { w.settleSlot i with control := .looking i }
          else w
      | none => w
  | .look answer started =>
      match w.control with
      | .looking i =>
          match w.slots i with
          | some s => w.look i s answer started
          | none => w
      | _ => w
  | .poll =>
      match w.control with
      | .polling i =>
          match w.job i with
          | some k => { w with control := if (w.jobs k).done then .taking i else .idle }
          | none => w
      | _ => w
  | .take answer =>
      match w.control with
      | .taking i =>
          match w.job i, w.slots i with
          | some k, some s => w.take i k s answer
          | _, _ => w
      | _ => w
  | .service i at_ op =>
      match w.slots i with
      | some s =>
          if w.control = .idle then w.setSlot i (Dns.service s at_ op) else w
      | none => w
  | .release i =>
      match w.slots i with
      | some s =>
          if w.control = .idle ∧ s.phase = .closed then (w.dnsDropSlot i).setSlot i none else w
      | none => w
  | .forceClose i why =>
      match w.slots i with
      | some s =>
          if w.control = .idle then
            ((w.setSlot i (slotForceClose s why.reason)).dnsDropSlot i).setSlot i none
          else w
      | none => w
  | .accept i c2u u2c clientFd finGraceMs =>
      match w.slots i with
      | some _ => w
      | none =>
          if w.control = .idle then
            (w.dnsDropSlot i).setSlot i (some { slotInit c2u u2c clientFd w.now with finGraceMs })
          else w

def run (w : State n) (ops : List (Op n)) : State n := ops.foldl step w

end State

end FryFirmware.Dns
