import FryFirmware.Improv.Glue
import FryFirmware.Lib.Latch

/-!
# What a client of the bridge can rely on

The conversation has a ledger: the last request, the scan and the join that are owed an
answer, the stored key that asks for a restart. The statics of the bridge are this
ledger, and every step adds an exchange that the ledger allows.
-/

set_option autoImplicit false

namespace FryFirmware.Improv

open Lib Config
open Boot (Chip)
open Provisioning (cString)

variable {build : Build}

/-! ## Answers on the wire -/

def State.ofCode? (code : UInt8) : Option State :=
  [State.ready, .provisioning, .provisioned].find? (·.code = code)

def Error.ofCode? (code : UInt8) : Option Error :=
  [Error.none, .invalidRpc, .unknownCommand, .unableToConnect, .notAuthorized, .unknown].find?
    (·.code = code)

/-- What a client makes of a packet. -/
def readReply (bytes : List UInt8) : Option Reply :=
  match decodeRpcResult bytes with
  | some (command, strings) => some (.result command strings)
  | none =>
      match openPacket bytes with
      | some (type, [code]) =>
          if type = kTypeCurrentState then (State.ofCode? code).map .state
          else if type = kTypeErrorState then (Error.ofCode? code).map .error
          else none
      | _ => none

def Reply.Short : Reply → Prop
  | .result _ strings => 2 + (encoded strings).length ≤ kMaxPayload
  | _ => True

theorem State.ofCode?_code (now : State) : State.ofCode? now.code = some now := by
  cases now <;> rfl

theorem Error.ofCode?_code (problem : Error) : Error.ofCode? problem.code = some problem := by
  cases problem <;> rfl

/-- A packet of one byte, in any buffer. -/
theorem encodeOneByte_opens (type value : UInt8) (buffer : Memory UInt8 kMaxPacket) :
    ∃ n after, encodeOneByte type value (some buffer) = some (n, some after) ∧
      openPacket (after.window 0 n) = some (type, [value]) ∧
      decodeRpcResult (after.window 0 n) = none := by
  obtain ⟨narrow, -⟩ | ⟨-, encoded⟩ := encodeOneByte_cases type value buffer
  · exact absurd narrow (by decide)
  · have length : (packet type [value]).length = 11 := rfl
    have fits : (packet type [value]).length ≤ kMaxPacket := by
      rw [length]
      decide
    have opened : openPacket ((buffer.store 0 (packet type [value])).window 0 11) =
        some (type, [value]) := by
      rw [← length, window_store buffer _ fits, openPacket_packet]
    refine ⟨11, _, encoded, opened, ?_⟩
    simp only [decodeRpcResult, opened]

/-- Every answer is a packet that the client reads back. -/
theorem Reply.encode_reads (reply : Reply) (short : reply.Short)
    (buffer : Memory UInt8 kMaxPacket) :
    ∃ n after, reply.encode (some buffer) = some (n, some after) ∧
      readReply (after.window 0 n) = some reply := by
  cases reply with
  | state now =>
      obtain ⟨n, after, encoded, opened, other⟩ :=
        encodeOneByte_opens kTypeCurrentState now.code buffer
      refine ⟨n, after, encoded, ?_⟩
      simp only [readReply, other, opened, if_pos, State.ofCode?_code, Option.map_some]
  | error problem =>
      obtain ⟨n, after, encoded, opened, other⟩ :=
        encodeOneByte_opens kTypeErrorState problem.code buffer
      refine ⟨n, after, encoded, ?_⟩
      have type : kTypeErrorState ≠ kTypeCurrentState := by decide
      simp only [readReply, other, opened, if_neg type, if_pos, Error.ofCode?_code, Option.map_some]
  | result command strings =>
      obtain ⟨n, after, encoded, decoded⟩ := encodeRpcResult_answers command short buffer
      exact ⟨n, after, encoded, by simp only [readReply, decoded]⟩

/-! ## The ledger of a conversation -/

/-- A 0x01 that the transport committed. -/
def commits (command : UInt8) (data : List UInt8) (around : Around) : Bool :=
  command = wifiSettingsCommand &&
    match credentials? data with
    | some (ssid, pass) => around.commitWifiOnlyCredentials ssid pass
    | none => false

/-- A 0xF0 that stored a key different from the one before. -/
def storesKey (command : UInt8) (data : List UInt8) (around : Around) : Bool :=
  command = frySetMinerKey &&
    match ownerKey? data with
    | some key => (around.setOwnerKey key).1 = .accept && (around.setOwnerKey key).2
    | none => false

/-- What the conversation leaves open; of a scan whether the board had joined its network. -/
structure Ledger where
  lastRpc : Option Nat := none
  scanning : Option Bool := none
  lastRunning : Option Nat := none
  awaiting : Bool := false
  changed : Bool := false

namespace Ledger

def note (l : Ledger) : Exchange → Ledger
  | .served time command data around _ started =>
      { lastRpc := some time
        scanning := if started.isSome then some (!around.transportRunning) else l.scanning
        lastRunning :=
          if started.isSome && !around.transportRunning then started else l.lastRunning
        awaiting := if commits command data around then !around.connected else l.awaiting
        changed := l.changed || storesKey command data around }
  | .rejected => l
  | .scanned _ => { l with scanning := none }
  | .joined _ _ => { l with awaiting := false }
  | .keyRestart _ => { l with changed := false }

/-- The first scan of a board that joined its network, or one 30 s after the last; the
station is joined and there is room. -/
def MayScan (build : Build) (l : Ledger) (around : Around) (start : Nat) : Prop :=
  around.transportRunning = false →
    around.connected = true ∧ build.kScanMinBlock ≤ around.maxFreeBlock ∧
      ∀ last, l.lastRunning = some last → last + 30000 ≤ start

/-- The rows of a scan and the empty result behind them, or an error. -/
def EndsScan (replies : List Reply) : Prop :=
  replies = [.error .unknown] ∨
    ∃ rows, replies = rows ++ [.result requestScannedWifi []] ∧
      ∀ row ∈ rows, ∃ ssid rssi secure,
        row = .result requestScannedWifi [ssid, formatRssi rssi, authCell secure]

/-- A request is answered at once, unless a scan will answer it. -/
def Answers (build : Build) (l : Ledger) (command : UInt8) (around : Around) (replies : List Reply) :
    Option Nat → Prop
  | none =>
      (∃ reply, replies = [reply]) ∨
        replies = [] ∧ command = requestScannedWifi ∧ l.scanning.isSome
  | some start =>
      replies = [] ∧ command = requestScannedWifi ∧ l.scanning = none ∧ l.MayScan build around start

def Allows (build : Build) (l : Ledger) : Exchange → Prop
  | .served time command _ around replies started =>
      (∀ last, l.lastRpc = some last → last ≤ time) ∧ l.Answers build command around replies started
  | .rejected => True
  | .scanned replies => l.scanning.isSome ∧ EndsScan replies
  | .joined connected replies =>
      l.awaiting ∧
        if connected then ∃ url, replies = [.state .provisioned, .result wifiSettingsCommand [url]]
        else replies = [.error .unableToConnect, .state .ready]
  | .keyRestart time => l.changed ∧ ∀ last, l.lastRpc = some last → last + 3000 ≤ time

end Ledger

def ledger (trace : List Exchange) : Ledger := trace.foldl Ledger.note {}

theorem ledger_append (front back : List Exchange) :
    ledger (front ++ back) = back.foldl Ledger.note (ledger front) := List.foldl_append

/-! ## The statics are the ledger -/

structure Agrees (g : Glue) (l : Ledger) : Prop where
  awaiting : g.awaitingWifi = l.awaiting
  changed : g.keyChanged = l.changed
  scanning : g.scanRunning = l.scanning.isSome
  running : ∀ running, l.scanning = some running → g.scanOnRunningBoard = running
  rpc : ∀ last, l.lastRpc = some last → g.lastRpcMs = counter last ∧ last ≤ g.time
  haveLast : g.haveLastRunningScan = l.lastRunning.isSome
  lastRunning : ∀ last, l.lastRunning = some last →
    g.lastRunningScanMs = counter last ∧ last ≤ g.time

namespace Agrees

variable {g : Glue} {l : Ledger}

theorem passes (agrees : Agrees g l) (time : Nat) : Agrees (g.passes time) l where
  awaiting := agrees.awaiting
  changed := agrees.changed
  scanning := agrees.scanning
  running := agrees.running
  rpc last known := ⟨(agrees.rpc last known).1, Nat.le_add_right_of_le (agrees.rpc last known).2⟩
  haveLast := agrees.haveLast
  lastRunning last known :=
    ⟨(agrees.lastRunning last known).1, Nat.le_add_right_of_le (agrees.lastRunning last known).2⟩

/-- The radio is not in the ledger. -/
theorem radio (agrees : Agrees g l) (mode prev : WifiMode) :
    Agrees { g with mode := mode, scanPrevMode := prev } l :=
  ⟨agrees.awaiting, agrees.changed, agrees.scanning, agrees.running, agrees.rpc, agrees.haveLast,
    agrees.lastRunning⟩

theorem parser (agrees : Agrees g l) (parser : Parser) : Agrees { g with parser } l :=
  ⟨agrees.awaiting, agrees.changed, agrees.scanning, agrees.running, agrees.rpc, agrees.haveLast,
    agrees.lastRunning⟩

end Agrees

section Requests

variable {g : Glue} {l : Ledger} {time : Nat} {command : UInt8} {data : List UInt8}
  {around : Around}

/-- The request was served as the ledger allows, and the ledger notes what is left open. -/
structure Serves (build : Build) (l : Ledger) (time : Nat) (command : UInt8) (data : List UInt8)
    (around : Around) (outcome : Outcome) : Prop where
  answers : l.Answers build command around outcome.replies outcome.started
  agrees : Agrees outcome.glue
    (l.note (.served time command data around outcome.replies outcome.started))

theorem Ledger.note_plain {replies : List Reply} (last : l.lastRpc = some time)
    (commit : commits command data around = false)
    (key : storesKey command data around = false) :
    l.note (.served time command data around replies none) = l := by
  cases l
  simp_all [Ledger.note]

/-- One answer, and nothing changed that the ledger knows. -/
theorem serves_answer {reply : Reply} (agrees : Agrees g l) (last : l.lastRpc = some time)
    (commit : commits command data around = false)
    (key : storesKey command data around = false) :
    Serves build l time command data around { glue := g, replies := [reply] } where
  answers := .inl ⟨reply, rfl⟩
  agrees := by
    rw [Ledger.note_plain last commit key]
    exact agrees

theorem storesKey_of_ne (other : command ≠ frySetMinerKey) :
    storesKey command data around = false := by
  simp [storesKey, other]

theorem commits_of_ne (other : command ≠ wifiSettingsCommand) :
    commits command data around = false := by
  simp [commits, other]

theorem serves_handleWifiSettings (agrees : Agrees g l) (last : l.lastRpc = some time) :
    Serves build l time wifiSettingsCommand data around (g.handleWifiSettings data around) := by
  have key : storesKey wifiSettingsCommand data around = false := storesKey_of_ne (by decide)
  rw [Glue.handleWifiSettings]
  cases decoded : credentials? data with
  | none => exact serves_answer agrees last (by simp [commits, decoded]) key
  | some given =>
      obtain ⟨ssid, pass⟩ := given
      simp only
      cases committed : around.commitWifiOnlyCredentials ssid pass with
      | false => exact serves_answer agrees last (by simp [commits, decoded, committed]) key
      | true =>
          have commit : commits wifiSettingsCommand data around = true := by
            simp [commits, decoded, committed]
          refine ⟨.inl ⟨_, rfl⟩, ?_⟩
          simp only [if_true, Ledger.note, commit, key, Bool.or_false, Option.isSome_none,
            Bool.false_eq_true, if_false, Bool.false_and]
          exact ⟨rfl, agrees.changed, agrees.scanning, agrees.running,
            fun time known => agrees.rpc time (last.trans known), agrees.haveLast, agrees.lastRunning⟩

theorem serves_handleSetMinerKey (agrees : Agrees g l) (last : l.lastRpc = some time) :
    Serves build l time frySetMinerKey data around (g.handleSetMinerKey data around) := by
  have commit : commits frySetMinerKey data around = false := commits_of_ne (by decide)
  rw [Glue.handleSetMinerKey]
  cases decoded : ownerKey? data with
  | none => exact serves_answer agrees last commit (by simp [storesKey, decoded])
  | some key =>
      have stores : storesKey frySetMinerKey data around =
          ((around.setOwnerKey key).1 = .accept && (around.setOwnerKey key).2) := by
        simp [storesKey, decoded]
      refine ⟨.inl ⟨_, rfl⟩, ?_⟩
      simp only [Ledger.note, commit, stores, Option.isSome_none, Bool.false_eq_true, if_false,
        Bool.false_and]
      exact ⟨agrees.awaiting, by rw [agrees.changed], agrees.scanning, agrees.running,
        fun time known => agrees.rpc time (last.trans known), agrees.haveLast, agrees.lastRunning⟩

/-- A scan request joins the scan in flight, is answered at once or starts a scan; the AP
stays up on an ESP8266. -/
inductive ScanRequest (build : Build) (g : Glue) : Outcome × Bool → Prop where
  | joins (running : g.scanRunning = true) : ScanRequest build g ({ glue := g, replies := [] }, false)
  | answered (reply : Reply) (mode prev : WifiMode) (idle : g.scanRunning = false)
      (short : reply.Short) (ap : build.chip = .esp8266 → mode.ap = g.mode.ap) :
      ScanRequest build g
        ({ glue := { g with mode := mode, scanPrevMode := prev }, replies := [reply] }, false)
  | starts (mode prev : WifiMode) (idle : g.scanRunning = false)
      (ap : build.chip = .esp8266 → mode.ap = g.mode.ap ∧ prev.ap = g.mode.ap) :
      ScanRequest build g
        ({ glue := { g with mode := mode, scanPrevMode := prev, scanRunning := true },
           replies := [] }, true)

theorem restoreScanMode_eq (g : Glue) :
    ∃ mode, g.restoreScanMode = { g with mode := mode } ∧ (mode = g.mode ∨ mode = g.scanPrevMode) := by
  rw [Glue.restoreScanMode]
  split
  · exact ⟨g.scanPrevMode, rfl, .inr rfl⟩
  · exact ⟨g.mode, rfl, .inl rfl⟩

theorem handleScanRequest_cases (build : Build) (g : Glue) (around : Around) :
    ScanRequest build g (g.handleScanRequest build around) := by
  rw [Glue.handleScanRequest]
  by_cases running : g.scanRunning = true
  · rw [if_pos running]
    exact .joins running
  have idle : g.scanRunning = false := by simpa using running
  have error : (Reply.error .unknown).Short := trivial
  rw [if_neg running]
  cases chip : build.chip with
  | esp32 =>
      have other : build.chip = .esp8266 → False := by simp [chip]
      simp only
      split
      · exact .answered _ _ _ idle error fun same => (other same).elim
      · exact .starts _ _ idle fun same => (other same).elim
  | esp8266 =>
      have empty : (Reply.result requestScannedWifi []).Short := (by decide : 2 + 0 ≤ kMaxPayload)
      simp only
      split
      · exact .answered _ g.mode g.scanPrevMode idle empty fun _ => rfl
      split
      · obtain ⟨mode, restored, which⟩ := restoreScanMode_eq
          { g with scanPrevMode := g.mode, mode := { g.mode with sta := true } }
        rw [restored]
        refine .answered _ mode g.mode idle error fun _ => ?_
        rcases which with rfl | rfl <;> rfl
      · exact .starts _ _ idle fun _ => ⟨rfl, rfl⟩

/-- The rule on a board that joined its network. -/
theorem admitScan_running {staConnected haveLast : Bool} {nowMs lastScanMs maxFreeBlock minBlock : UInt32}
    (admitted : admitScan false staConnected haveLast nowMs lastScanMs maxFreeBlock minBlock ≠ .refuse) :
    staConnected = true ∧ minBlock ≤ maxFreeBlock ∧
      (haveLast = true → kRunningScanMinIntervalMs ≤ nowMs - lastScanMs) := by
  simp only [admitScan, Bool.false_eq_true, if_false, Bool.not_eq_true', Bool.and_eq_true,
    decide_eq_true_eq] at admitted
  split at admitted
  · exact absurd rfl admitted
  next joined =>
    split at admitted
    · exact absurd rfl admitted
    next spaced =>
      split at admitted
      · next room =>
        refine ⟨by simpa using joined, room, fun known => ?_⟩
        exact UInt32.not_lt.mp fun soon => spaced ⟨known, soon⟩
      · exact absurd rfl admitted

theorem mayScan_of_admitted (agrees : Agrees g l)
    (admitted : admitScan around.transportRunning around.connected g.haveLastRunningScan g.millis
      g.lastRunningScanMs around.maxFreeBlock build.kScanMinBlock ≠ .refuse) :
    l.MayScan build around g.time := by
  intro running
  rw [running] at admitted
  obtain ⟨joined, room, spaced⟩ := admitScan_running admitted
  refine ⟨joined, room, fun last known => ?_⟩
  obtain ⟨shown, before⟩ := agrees.lastRunning last known
  have elapsed := spaced (by rw [agrees.haveLast, known]; rfl)
  rw [shown, Glue.millis] at elapsed
  exact passed_of_elapsed before elapsed

theorem serves_requestScan (agrees : Agrees g l) (last : l.lastRpc = some time) :
    Serves build l time requestScannedWifi data around (g.requestScan build around) := by
  have commit : commits requestScannedWifi data around = false := commits_of_ne (by decide)
  have key : storesKey requestScannedWifi data around = false := storesKey_of_ne (by decide)
  have agrees := agrees.passes around.toAdmit
  rw [Glue.requestScan]
  simp only
  generalize g.passes around.toAdmit = g at agrees
  by_cases admitted : admitScan around.transportRunning around.connected g.haveLastRunningScan
      g.millis g.lastRunningScanMs around.maxFreeBlock build.kScanMinBlock = .refuse
  · rw [if_pos admitted]
    exact serves_answer agrees last commit key
  rw [if_neg admitted]
  have request := handleScanRequest_cases build g around
  generalize g.handleScanRequest build around = served at request
  cases request with
  | joins running =>
      refine ⟨.inr ⟨rfl, rfl, agrees.scanning.symm.trans running⟩, ?_⟩
      simp only [Bool.false_eq_true, if_false]
      rw [Ledger.note_plain last commit key]
      exact agrees
  | answered reply mode prev idle short ap =>
      exact serves_answer (agrees.radio mode prev) last commit key
  | starts mode prev idle ap =>
      have none : l.scanning = none := by simpa [idle] using agrees.scanning.symm
      have may := mayScan_of_admitted agrees admitted
      have later := agrees.passes around.toStarted
      refine ⟨⟨rfl, rfl, none, fun running => ?_⟩, ?_⟩
      · obtain ⟨joined, room, spaced⟩ := may running
        exact ⟨joined, room, fun last known => Nat.le_add_right_of_le (spaced last known)⟩
      · have rpc : ∀ known, some time = some known →
            g.lastRpcMs = counter known ∧ known ≤ g.time + around.toStarted :=
          fun known same => later.rpc known (last.trans same)
        simp only [if_true, Ledger.note, commit, key, Option.isSome_some, Bool.or_false,
          Bool.true_and, Bool.false_eq_true, if_false]
        cases where_ : around.transportRunning with
        | true =>
            exact ⟨agrees.awaiting, agrees.changed, rfl, fun _ same => Option.some.inj same, rpc,
              agrees.haveLast, later.lastRunning⟩
        | false =>
            refine ⟨agrees.awaiting, agrees.changed, rfl, fun _ same => Option.some.inj same, rpc,
              rfl, ?_⟩
            rintro known same
            cases Option.some.inj same
            exact ⟨rfl, Nat.le_refl _⟩

theorem serves_dispatch (agrees : Agrees g l) (last : l.lastRpc = some time) :
    Serves build l time command data around (g.dispatch build command data around) := by
  rw [Glue.dispatch]
  split
  next isWifi =>
    subst isWifi
    exact serves_handleWifiSettings agrees last
  next notWifi =>
    have commit : commits command data around = false := commits_of_ne notWifi
    split
    next isState => exact serves_answer agrees last commit (storesKey_of_ne (by rw [isState]; decide))
    split
    next isInfo => exact serves_answer agrees last commit (storesKey_of_ne (by rw [isInfo]; decide))
    split
    next isScan =>
      subst isScan
      exact serves_requestScan agrees last
    split
    next isKey =>
      subst isKey
      exact serves_handleSetMinerKey agrees last
    next notKey =>
      split
      · exact serves_answer agrees last commit (storesKey_of_ne notKey)
      · exact serves_answer agrees last commit (storesKey_of_ne notKey)

end Requests

/-! ## One step -/

section Steps

variable {g : Glue} {l : Ledger}

/-- The exchanges of a step are allowed one after the other, and the ledger stays true. -/
def Kept (build : Build) (l : Ledger) (result : Glue × List Exchange) : Prop :=
  match result.2 with
  | [] => Agrees result.1 l
  | [exchange] => l.Allows build exchange ∧ Agrees result.1 (l.note exchange)
  | _ => False

theorem kept_serve (agrees : Agrees g l) (around : Around) : Kept build l (g.serve build around) := by
  have later := agrees.passes around.toRpc
  rw [Glue.serve]
  generalize g.passes around.toRpc = g at later
  have noted : Agrees g.heard { l with lastRpc := some g.time } :=
    ⟨later.awaiting, later.changed, later.scanning, later.running,
      fun _ same => by cases same; exact ⟨rfl, Nat.le_refl _⟩, later.haveLast, later.lastRunning⟩
  have served := @serves_dispatch build _ _ g.time g.parser.command g.parser.dataBytes around noted rfl
  exact ⟨⟨fun last known => (later.rpc last known).2, served.answers⟩, served.agrees⟩

theorem kept_receive (agrees : Agrees g l) (b : UInt8) (around : Around) :
    Kept build l (g.receive build b around) := by
  have agrees := agrees.parser (g.parser.feed b).1
  rw [Glue.receive]
  cases fed : (g.parser.feed b).2 with
  | none => simpa only [fed, Kept] using agrees
  | badChecksum => simpa only [fed, Kept] using ⟨trivial, agrees⟩
  | malformed => simpa only [fed, Kept] using ⟨trivial, agrees⟩
  | rpc => simpa only [fed] using kept_serve agrees around

/-- The scan is over and the join goes on. -/
theorem endScan_eq (build : Build) (g : Glue) :
    ∃ mode, g.endScan build = { g with scanRunning := false, mode := mode } ∧
      (build.chip = .esp8266 → mode = g.mode ∨ mode = g.scanPrevMode) := by
  rw [Glue.endScan]
  cases chip : build.chip with
  | esp32 => exact ⟨g.mode, rfl, fun same => by cases same⟩
  | esp8266 =>
      obtain ⟨mode, restored, which⟩ := restoreScanMode_eq { g with scanRunning := false }
      exact ⟨mode, restored, fun _ => which⟩

theorem agrees_endScan (agrees : Agrees g l) :
    Agrees (g.endScan build) { l with scanning := none } := by
  obtain ⟨mode, ended, -⟩ := endScan_eq build g
  rw [ended]
  exact ⟨agrees.awaiting, agrees.changed, rfl, nofun, agrees.rpc, agrees.haveLast, agrees.lastRunning⟩

/-- One result for each network. -/
theorem scanRows_row (scanned : Scanned) {row : Reply} (member : row ∈ Glue.scanRows build scanned) :
    ∃ ssid rssi secure, ssid.length ≤ 32 ∧
      row = .result requestScannedWifi [ssid, formatRssi rssi, authCell secure] := by
  simp only [Glue.scanRows] at member
  split at member
  · obtain ⟨row, -, rfl⟩ := List.mem_map.mp member
    exact ⟨_, _, _, row.fits, rfl⟩
  · obtain ⟨sighting, -, rfl⟩ := List.mem_map.mp member
    exact ⟨_, _, _, List.length_take_le _ _, rfl⟩

theorem kept_pollScan (agrees : Agrees g l) (scanned : Scanned) :
    Kept build l (g.pollScan build scanned) := by
  rw [Glue.pollScan]
  by_cases idle : (!g.scanRunning) = true
  · rw [if_pos idle]
    exact agrees
  have outstanding : l.scanning.isSome = true := by
    rw [← agrees.scanning]
    simpa using idle
  rw [if_neg idle]
  split
  · exact agrees
  · exact ⟨⟨outstanding, .inl rfl⟩, agrees_endScan agrees⟩
  · split
    · exact ⟨⟨outstanding, .inl rfl⟩, agrees_endScan agrees⟩
    · refine ⟨⟨outstanding, .inr ⟨_, rfl, fun row member => ?_⟩⟩, agrees_endScan agrees⟩
      obtain ⟨ssid, rssi, secure, -, same⟩ := scanRows_row scanned member
      exact ⟨ssid, rssi, secure, same⟩

theorem kept_pollWifiOutcome (agrees : Agrees g l) (joining : Joining) :
    Kept build l (g.pollWifiOutcome build joining) := by
  have settled : Agrees { g with awaitingWifi := false } { l with awaiting := false } :=
    ⟨rfl, agrees.changed, agrees.scanning, agrees.running, agrees.rpc, agrees.haveLast,
      agrees.lastRunning⟩
  rw [Glue.pollWifiOutcome]
  by_cases idle : (!g.awaitingWifi) = true
  · rw [if_pos idle]
    exact agrees
  have awaited : l.awaiting = true := by
    rw [← agrees.awaiting]
    simpa using idle
  rw [if_neg idle]
  split
  · exact ⟨⟨awaited, _, rfl⟩, settled⟩
  split
  · exact ⟨⟨awaited, rfl⟩, settled⟩
  · exact agrees

theorem kept_consumeKeyChanged (agrees : Agrees g l) (after : Nat) :
    Kept build l (g.consumeKeyChanged after) := by
  have later := agrees.passes after
  rw [Glue.consumeKeyChanged]
  generalize g.passes after = g at later
  by_cases waits : (!g.keyChanged || g.millis - g.lastRpcMs < Glue.kKeyRestartIdleMs) = true
  · rw [if_pos waits]
    exact later
  rw [if_neg waits]
  simp only [Bool.or_eq_true, Bool.not_eq_true', decide_eq_true_eq, not_or, Bool.not_eq_false,
    UInt32.not_lt] at waits
  obtain ⟨changed, silent⟩ := waits
  refine ⟨⟨later.changed.symm.trans changed, fun last known => ?_⟩, ?_⟩
  · obtain ⟨shown, before⟩ := later.rpc last known
    rw [shown, Glue.millis] at silent
    exact passed_of_elapsed before silent
  · exact ⟨later.awaiting, rfl, later.scanning, later.running, later.rpc, later.haveLast,
      later.lastRunning⟩

theorem kept_step (agrees : Agrees g l) (input : Input) : Kept build l (g.step build input) := by
  cases input with
  | byte b around => exact kept_receive agrees b around
  | pollScan scanned => exact kept_pollScan agrees scanned
  | pollWifiOutcome joining => exact kept_pollWifiOutcome agrees joining
  | consumeKeyChanged after => exact kept_consumeKeyChanged agrees after
  | setMode mode => exact agrees.radio mode g.scanPrevMode

end Steps

/-! ## A run -/

section Runs

open OrderedTrace (Ordered orderedFrom_iff ordered_append run_invariant)

/-- Every exchange is one that the ledger of those before it allows. -/
abbrev InOrder (build : Build) (trace : List Exchange) : Prop :=
  Ordered (fun before exchange => (ledger before).Allows build exchange) trace

/-- A bridge after `init`. -/
def Glue.Started (g : Glue) : Prop :=
  ∃ payload deviceName mode time, g = { Glue.init payload deviceName with mode := mode, time := time }

theorem agrees_started {g : Glue} (started : g.Started) : Agrees g {} := by
  obtain ⟨payload, deviceName, mode, time, rfl⟩ := started
  exact ⟨rfl, rfl, rfl, nofun, nofun, rfl, nofun⟩

theorem run_inOrder (build : Build) {start : Glue} (started : start.Started) (inputs : List Input) :
    Agrees (OrderedTrace.run (Glue.step build) start inputs).1
        (ledger (OrderedTrace.run (Glue.step build) start inputs).2) ∧
      InOrder build (OrderedTrace.run (Glue.step build) start inputs).2 := by
  refine @run_invariant _ _ _ _ (fun g trace => Agrees g (ledger trace) ∧ InOrder build trace) _
    ⟨agrees_started started, trivial⟩ ?_ inputs
  rintro g trace input ⟨agrees, inOrder⟩
  have kept : Kept build (ledger trace) (g.step build input) := kept_step agrees input
  rw [ledger_append, InOrder, ordered_append]
  revert kept
  rcases g.step build input with ⟨g, _ | ⟨exchange, _ | ⟨_, _⟩⟩⟩
  · exact fun kept => ⟨kept, inOrder, trivial⟩
  · exact fun kept => ⟨kept.2, inOrder, kept.1, trivial⟩
  · exact fun kept => kept.elim

end Runs

/-! ## The ledger as a history -/

namespace Exchange

def startsScan : Exchange → Bool
  | .served _ _ _ _ _ started => started.isSome
  | _ => false

def endsScan : Exchange → Bool
  | .scanned _ => true
  | _ => false

def storesKey : Exchange → Bool
  | .served _ command data around _ _ => Improv.storesKey command data around
  | _ => false

def restarts : Exchange → Bool
  | .keyRestart _ => true
  | _ => false

end Exchange

section Histories

variable {trace : List Exchange}

@[simp] theorem ledger_concat (trace : List Exchange) (exchange : Exchange) :
    ledger (trace ++ [exchange]) = (ledger trace).note exchange := ledger_append trace [exchange]

theorem ledger_scanning (trace : List Exchange) :
    (ledger trace).scanning.isSome = latched Exchange.startsScan Exchange.endsScan trace := by
  induction trace using List.reverseRecOn with
  | nil => rfl
  | append_singleton trace exchange ih =>
      rw [ledger_concat, latched_concat, ← ih]
      cases exchange with
      | served time command data around replies started => cases started <;> rfl
      | _ => rfl

theorem inOrder_concat {exchange : Exchange} :
    InOrder build (trace ++ [exchange]) ↔
      InOrder build trace ∧ (ledger trace).Allows build exchange := by
  rw [InOrder, OrderedTrace.ordered_append]
  simp [OrderedTrace.OrderedFrom]

end Histories

/-! ## Requests -/

/-- The lengths of the build flags leave room for the other strings. -/
structure Build.Short (build : Build) : Prop where
  info : build.firmwareVersion.length + build.chipName.length ≤ 79
  url : build.deviceUrlBase.length ≤ 81

/-- A status that fits a packet. -/
def Input.Short : Input → Prop
  | .byte _ around =>
      (around.snapshot.fw.getD []).length + (around.snapshot.ota.getD []).length +
        (around.snapshot.apCode.getD []).length ≤ 71
  | _ => True

def Input.byte? : Input → Option UInt8
  | .byte b _ => some b
  | _ => none

/-- The requests in the order in which they were served. -/
def requests (trace : List Exchange) : List (UInt8 × List UInt8) :=
  trace.filterMap fun
    | .served _ command data _ _ _ => some (command, data)
    | _ => none

section Answered

variable {g : Glue} {command : UInt8} {data : List UInt8} {around : Around}

theorem short_keyWrite (verdict : Identity.KeyWriteVerdict) (key : Text) :
    (Reply.result frySetMinerKey (keyWriteStrings verdict (some (maskMinerKey key 12)))).Short := by
  have masked : (maskMinerKey key 12).length ≤ 9 := by
    rw [maskMinerKey]
    split
    · exact Nat.zero_le _
    · simp [Identity.ellipsis]
  cases verdict with
  | accept =>
      simp [Reply.Short, keyWriteStrings, encoded, text, kMaxPayload]
      omega
  | _ => simp [Reply.Short, keyWriteStrings, encoded, text, kMaxPayload]

theorem short_deviceInfo (short : build.Short) (name : g.deviceName.length ≤ 31) :
    (g.deviceInfo build).Short := by
  have flags := short.info
  have own : (text "Fry Firmware").length = 12 := rfl
  simp only [Reply.Short, Glue.deviceInfo, encoded, List.flatMap_cons, List.flatMap_nil,
    List.length_append, List.length_cons, List.length_nil, own, kMaxPayload]
  omega

theorem short_scanRow {ssid : Text} (rssi : Int) (secure : Bool) (fits : ssid.length ≤ 32) :
    (Reply.result requestScannedWifi [ssid, formatRssi rssi, authCell secure]).Short := by
  have number : (formatRssi rssi).length ≤ 7 := length_snprintf 8 rssi
  have cell : (authCell secure).length ≤ 3 := by cases secure <;> decide
  simp only [Reply.Short, encoded, List.flatMap_cons, List.flatMap_nil, List.length_append,
    List.length_cons, List.length_nil, kMaxPayload]
  omega

theorem short_deviceUrl (short : build.Short) {minerKey : Text} (key : minerKey.length < 40) :
    (Reply.result wifiSettingsCommand [Glue.deviceUrl build (cString minerKey)]).Short := by
  have base := short.url
  have mark : (text "#key=").length = 5 := rfl
  have copied : (cString minerKey).length ≤ minerKey.length :=
    (List.takeWhile_prefix _).length_le
  have url : (Glue.deviceUrl build (cString minerKey)).length ≤ 125 := by
    rw [Glue.deviceUrl, List.length_take]
    split
    · omega
    · simp only [List.length_append, mark]
      omega
  simp only [Reply.Short, encoded, List.flatMap_cons, List.flatMap_nil, List.length_append,
    List.length_cons, List.length_nil, kMaxPayload]
  omega

/-- A scan request is answered with one byte or with the empty result. -/
theorem short_requestScan {reply : Reply} (member : reply ∈ (g.requestScan build around).replies) :
    reply.Short := by
  rw [Glue.requestScan] at member
  simp only at member
  split at member
  · obtain rfl := List.mem_singleton.mp member
    trivial
  · have request := handleScanRequest_cases build (g.passes around.toAdmit) around
    generalize (g.passes around.toAdmit).handleScanRequest build around = served at request member
    cases request with
    | joins => cases member
    | answered _ _ _ _ short =>
        obtain rfl := List.mem_singleton.mp member
        exact short
    | starts => cases member

theorem short_dispatch (short : build.Short) (name : g.deviceName.length ≤ 31)
    (status : (Reply.result fryGetStatus (statusStrings around.snapshot)).Short) {reply : Reply}
    (member : reply ∈ (g.dispatch build command data around).replies) : reply.Short := by
  rw [Glue.dispatch] at member
  split at member
  · rw [Glue.handleWifiSettings] at member
    split at member
    · obtain rfl := List.mem_singleton.mp member
      trivial
    · split at member <;>
      · obtain rfl := List.mem_singleton.mp member
        trivial
  split at member
  · obtain rfl := List.mem_singleton.mp member
    trivial
  split at member
  · obtain rfl := List.mem_singleton.mp member
    exact short_deviceInfo short name
  split at member
  · exact short_requestScan member
  split at member
  · rw [Glue.handleSetMinerKey] at member
    split at member
    · obtain rfl := List.mem_singleton.mp member
      trivial
    · obtain rfl := List.mem_singleton.mp member
      exact short_keyWrite _ _
  split at member
  · obtain rfl := List.mem_singleton.mp member
    exact status
  · obtain rfl := List.mem_singleton.mp member
    trivial

end Answered

section Streams

variable {g : Glue} {command : UInt8} {data : List UInt8} {around : Around}

/-- Serving a request leaves parser and name. -/
theorem dispatch_frame (build : Build) (g : Glue) (command : UInt8) (data : List UInt8)
    (around : Around) :
    (g.dispatch build command data around).glue.parser = g.parser ∧
      (g.dispatch build command data around).glue.deviceName = g.deviceName := by
  rw [Glue.dispatch]
  split
  · rw [Glue.handleWifiSettings]
    split
    · exact ⟨rfl, rfl⟩
    · split <;> exact ⟨rfl, rfl⟩
  split
  · exact ⟨rfl, rfl⟩
  split
  · exact ⟨rfl, rfl⟩
  split
  · rw [Glue.requestScan]
    simp only
    split
    · exact ⟨rfl, rfl⟩
    · have request := handleScanRequest_cases build (g.passes around.toAdmit) around
      generalize (g.passes around.toAdmit).handleScanRequest build around = served at request
      cases request with
      | joins => exact ⟨rfl, rfl⟩
      | answered => exact ⟨rfl, rfl⟩
      | starts =>
          simp only [if_true]
          split <;> exact ⟨rfl, rfl⟩
  split
  · rw [Glue.handleSetMinerKey]
    split <;> exact ⟨rfl, rfl⟩
  split <;> exact ⟨rfl, rfl⟩

/-- A step feeds its byte, serves what it completes and keeps the name; every answer fits. -/
structure Served (build : Build) (g : Glue) (input : Input) (result : Glue × List Exchange) : Prop where
  parser : result.1.parser = g.parser.run input.byte?.toList
  requests : requests result.2 = g.parser.received input.byte?.toList
  name : result.1.deviceName = g.deviceName
  short : build.Short → input.Short → g.deviceName.length ≤ 31 →
    ∀ exchange ∈ result.2, ∀ reply ∈ exchange.replies, reply.Short

theorem serve_frame (build : Build) (g : Glue) (around : Around) :
    (g.serve build around).1.parser = g.parser ∧
      (g.serve build around).1.deviceName = g.deviceName ∧
      ∃ time replies started, (g.serve build around).2 =
          [.served time g.parser.command g.parser.dataBytes around replies started] ∧
        (build.Short → (Reply.result fryGetStatus (statusStrings around.snapshot)).Short →
          g.deviceName.length ≤ 31 → ∀ reply ∈ replies, reply.Short) := by
  obtain ⟨parser, name⟩ := dispatch_frame build (g.passes around.toRpc).heard g.parser.command
    g.parser.dataBytes around
  exact ⟨parser, name, _, _, _, rfl, fun short status named reply member =>
    @short_dispatch build (g.passes around.toRpc).heard _ _ _ short named status reply member⟩

theorem served_receive (g : Glue) (b : UInt8) (around : Around) :
    Served build g (.byte b around) (g.receive build b around) := by
  have bytes : (Input.byte b around).byte?.toList = [b] := rfl
  obtain ⟨parser, result, fed⟩ : ∃ parser result, g.parser.feed b = (parser, result) := ⟨_, _, rfl⟩
  have run : g.parser.run [b] = parser := by simp [Parser.run, fed]
  have received : g.parser.received [b] =
      if result = .rpc then [(parser.command, parser.dataBytes)] else [] := by
    simp [Parser.received, fed]
  simp only [Glue.receive, fed]
  cases result with
  | rpc =>
      obtain ⟨same, name, time, replies, started, exchanges, fits⟩ :=
        serve_frame build { g with parser := parser } around
      refine ⟨by rw [same, bytes, run], ?_, name, ?_⟩
      · rw [bytes, received, exchanges]
        rfl
      · intro short status named exchange member
        rw [exchanges] at member
        obtain rfl := List.mem_singleton.mp member
        exact fits short (fits_statusStrings _ status) named
  | none =>
      exact ⟨by rw [bytes, run], by rw [bytes, received]; rfl, rfl,
        fun _ _ _ _ member => absurd member List.not_mem_nil⟩
  | badChecksum | malformed =>
      refine ⟨by rw [bytes, run], by rw [bytes, received]; rfl, rfl, ?_⟩
      simp [Exchange.replies, Reply.Short]

/-- The other steps feed nothing and serve nothing. -/
theorem served_other {input : Input} {result : Glue × List Exchange} (silent : input.byte? = none)
    (parser : result.1.parser = g.parser) (name : result.1.deviceName = g.deviceName)
    (unasked : requests result.2 = [])
    (short : build.Short → ∀ exchange ∈ result.2, ∀ reply ∈ exchange.replies, reply.Short) :
    Served build g input result where
  parser := by rw [silent, parser]; rfl
  requests := by rw [silent, unasked]; rfl
  name := name
  short fits _ _ := short fits

theorem served_pollScan (g : Glue) (scanned : Scanned) :
    Served build g (.pollScan scanned) (g.pollScan build scanned) := by
  obtain ⟨mode, ended, -⟩ := endScan_eq build g
  rw [Glue.pollScan, ended]
  split
  · exact served_other rfl rfl rfl rfl fun _ _ => nofun
  split
  · exact served_other rfl rfl rfl rfl fun _ _ => nofun
  · refine served_other rfl rfl rfl rfl ?_
    simp [Exchange.replies, Reply.Short]
  · split
    · refine served_other rfl rfl rfl rfl ?_
      simp [Exchange.replies, Reply.Short]
    · refine served_other rfl rfl rfl rfl fun _ exchange member reply answer => ?_
      obtain rfl := List.mem_singleton.mp member
      rcases List.mem_append.mp answer with row | final
      · obtain ⟨ssid, rssi, secure, fits, rfl⟩ := scanRows_row scanned row
        exact short_scanRow rssi secure fits
      · obtain rfl := List.mem_singleton.mp final
        exact (by decide : 2 + 0 ≤ kMaxPayload)

theorem served_pollWifiOutcome (g : Glue) (joining : Joining) :
    Served build g (.pollWifiOutcome joining) (g.pollWifiOutcome build joining) := by
  rw [Glue.pollWifiOutcome]
  split
  · exact served_other rfl rfl rfl rfl fun _ _ => nofun
  split
  · refine served_other rfl rfl rfl rfl fun short exchange member reply answer => ?_
    obtain rfl := List.mem_singleton.mp member
    rcases List.mem_cons.mp answer with rfl | final
    · trivial
    · obtain rfl := List.mem_singleton.mp final
      exact short_deviceUrl short joining.short
  split
  · refine served_other rfl rfl rfl rfl ?_
    simp [Exchange.replies, Reply.Short]
  · exact served_other rfl rfl rfl rfl fun _ _ => nofun

theorem served_step (build : Build) (g : Glue) (input : Input) :
    Served build g input (g.step build input) := by
  cases input with
  | byte b around => exact served_receive g b around
  | pollScan scanned => exact served_pollScan g scanned
  | pollWifiOutcome joining => exact served_pollWifiOutcome g joining
  | consumeKeyChanged after =>
      simp only [Glue.step, Glue.consumeKeyChanged]
      split
      · exact served_other rfl rfl rfl rfl fun _ _ => nofun
      · refine served_other rfl rfl rfl rfl ?_
        simp [Exchange.replies]
  | setMode mode => exact served_other rfl rfl rfl rfl fun _ _ => nofun

end Streams

/-! ## Results -/

section Results

variable {start : Glue}

/-- The run so far: the bridge and the exchanges. -/
abbrev Glue.after (build : Build) (start : Glue) (inputs : List Input) : Glue × List Exchange :=
  OrderedTrace.run (Glue.step build) start inputs

def sampleBuild : Build :=
  ⟨.esp8266, text "0.4.9", text "ESP8266", text "https://dashboard.frynetworks.com/new_registration"⟩

def sampleGlue : Glue := Glue.init (Memory.filled kMaxPayload 0) (text "FRY-01")

theorem sampleGlue_started : sampleGlue.Started :=
  ⟨Memory.filled kMaxPayload 0, text "FRY-01", {}, 0, rfl⟩

/-- A board that joined its network, with room for a scan. -/
def sampleAround : Around where
  transportRunning := false
  connected := true
  maxFreeBlock := 20000
  scanNetworks := -1
  commitWifiOnlyCredentials := fun _ _ => true
  setOwnerKey := fun _ => (.accept, true)
  snapshot := {}
  toRpc := 10
  toAdmit := 0
  toStarted := 1

/-- The packet of a request, received byte by byte. -/
def Rpc.inputs (r : Rpc) (around : Around) : List Input := r.packet.map (.byte · around)

theorem allows_of_split (started : start.Started) {inputs : List Input} {front back : List Exchange}
    {exchange : Exchange} (split : (start.after build inputs).2 = front ++ exchange :: back) :
    InOrder build front ∧ (ledger front).Allows build exchange := by
  obtain ⟨-, inOrder⟩ := run_inOrder build started inputs
  rw [split, ← List.singleton_append, ← List.append_assoc] at inOrder
  exact inOrder_concat.mp (OrderedTrace.ordered_append.mp inOrder).1

/-- The requests of a stream, however `poll` cuts it. -/
theorem run_served (build : Build) (started : start.Started) (inputs : List Input) :
    (start.after build inputs).1.parser = start.parser.run (inputs.filterMap Input.byte?) ∧
      requests (start.after build inputs).2 =
        start.parser.received (inputs.filterMap Input.byte?) ∧
      (start.after build inputs).1.deviceName.length ≤ 31 := by
  induction inputs using List.reverseRecOn with
  | nil =>
      obtain ⟨payload, deviceName, mode, time, rfl⟩ := started
      exact ⟨rfl, rfl, List.length_take_le _ _⟩
  | append_singleton inputs input ih =>
      obtain ⟨parser, served, name⟩ := ih
      have step := served_step build (start.after build inputs).1 input
      have bytes : (inputs ++ [input]).filterMap Input.byte? =
          inputs.filterMap Input.byte? ++ input.byte?.toList := by
        rw [List.filterMap_append]
        cases input <;> rfl
      rw [Glue.after, OrderedTrace.run_concat, bytes, Parser.run_append, Parser.received_append,
        ← parser, ← served]
      refine ⟨step.parser, ?_, by rw [OrderedTrace.advance, step.name]; exact name⟩
      rw [← step.requests, OrderedTrace.advance, requests, List.filterMap_append]
      rfl

theorem run_short (started : start.Started) (short : build.Short) {inputs : List Input}
    (statuses : ∀ input ∈ inputs, input.Short) :
    ∀ exchange ∈ (start.after build inputs).2, ∀ reply ∈ exchange.replies, reply.Short := by
  induction inputs using List.reverseRecOn with
  | nil => exact fun _ => nofun
  | append_singleton inputs input ih =>
      intro exchange member
      rw [Glue.after, OrderedTrace.run_concat, OrderedTrace.advance] at member
      rcases List.mem_append.mp member with early | final
      · exact ih (fun input member => statuses input (List.mem_append_left _ member)) exchange early
      · obtain ⟨-, -, name⟩ := run_served build started inputs
        exact (served_step build _ input).short short (statuses input (by simp)) name exchange final

/-- Every request of a stream is served once and in order, whatever else the UART carries
and wherever `poll` stops; it is answered at once or by the scan in flight, and the client
reads every answer. -/
theorem requests_served (build : Build) (started : start.Started) (short : build.Short)
    (inputs : List Input)
    (statuses : ∀ input ∈ inputs, input.Short) :
    requests (start.after build inputs).2 = start.parser.received (inputs.filterMap Input.byte?) ∧
    (∀ lead (segments : List Segment),
      inputs.filterMap Input.byte? = lead ++ segments.flatMap Segment.bytes →
      ¬ kHeader <:+: lead → (∀ s ∈ segments, s.Clean) →
      requests (start.after build inputs).2 = segments.map fun s => s.rpc.content) ∧
    (∀ exchange ∈ (start.after build inputs).2, ∀ reply ∈ exchange.replies,
      ∀ buffer : Memory UInt8 kMaxPacket, ∃ n after,
        reply.encode (some buffer) = some (n, some after) ∧
          readReply (after.window 0 n) = some reply) ∧
    ∀ front time command data around replies begun back,
      (start.after build inputs).2 =
        front ++ .served time command data around replies begun :: back →
      (∃ reply, replies = [reply]) ∨
        replies = [] ∧ command = requestScannedWifi ∧
          latched Exchange.startsScan Exchange.endsScan
            (front ++ [.served time command data around replies begun]) = true := by
  obtain ⟨-, served, -⟩ := run_served build started inputs
  refine ⟨served, ?_, ?_, ?_⟩
  · intro lead segments stream absent clean
    rw [served, stream]
    obtain ⟨payload, deviceName, mode, time, rfl⟩ := started
    exact Parser.received_segments segments (Parser.inStep_start payload) rfl absent clean
  · intro exchange member reply answer buffer
    exact reply.encode_reads (run_short started short statuses exchange member reply answer) buffer
  · intro front time command data around replies begun back split
    obtain ⟨-, allowed⟩ := allows_of_split started split
    rw [← ledger_scanning, ledger_concat]
    obtain ⟨-, answers⟩ := allowed
    cases begun with
    | none =>
        rcases answers with one | ⟨silent, scan, outstanding⟩
        · exact .inl one
        · exact .inr ⟨silent, scan, outstanding⟩
    | some begun => exact .inr ⟨answers.1, answers.2.1, rfl⟩

theorem requests_served_scan :
    requests (sampleGlue.after sampleBuild
      ((⟨0x04, [], by decide⟩ : Rpc).inputs sampleAround)).2 = [(0x04, [])] := by
  have served := requests_served sampleBuild sampleGlue_started ⟨by decide, by decide⟩
    ((⟨0x04, [], by decide⟩ : Rpc).inputs sampleAround) fun input member => by
      obtain ⟨b, -, rfl⟩ := List.mem_map.mp member
      exact (by decide : 0 + 5 + 0 ≤ 71)
  exact served.2.1 [] [⟨⟨0x04, [], by decide⟩, []⟩] (by decide) (by decide) (by decide +kernel)

/-- The mode that a scan will put back still has the AP as the radio has it. -/
def Glue.ApKept (ap : Bool) (g : Glue) : Prop :=
  g.mode.ap = ap ∧ (g.scanRunning = true → g.scanPrevMode.ap = ap)

theorem apKept_dispatch {g : Glue} {ap : Bool} (esp8266 : build.chip = .esp8266) (kept : g.ApKept ap)
    (command : UInt8) (data : List UInt8) (around : Around) :
    (g.dispatch build command data around).glue.ApKept ap := by
  rw [Glue.dispatch]
  split
  · rw [Glue.handleWifiSettings]
    split
    · exact kept
    · split <;> exact kept
  split
  · exact kept
  split
  · exact kept
  split
  · rw [Glue.requestScan]
    simp only
    have kept : (g.passes around.toAdmit).ApKept ap := kept
    generalize g.passes around.toAdmit = g at kept
    split
    · exact kept
    have request := handleScanRequest_cases build g around
    generalize g.handleScanRequest build around = served at request
    cases request with
    | joins => exact kept
    | answered reply mode prev idle short same =>
        exact ⟨(same esp8266).trans kept.1, fun running => by simp [idle] at running⟩
    | starts mode prev idle same =>
        have both : mode.ap = ap ∧ prev.ap = ap :=
          ⟨(same esp8266).1.trans kept.1, (same esp8266).2.trans kept.1⟩
        simp only [if_true]
        split <;> exact ⟨both.1, fun _ => both.2⟩
  split
  · rw [Glue.handleSetMinerKey]
    split <;> exact kept
  split <;> exact kept

theorem apKept_endScan {g : Glue} {ap : Bool} (esp8266 : build.chip = .esp8266) (kept : g.ApKept ap)
    (running : g.scanRunning = true) : (g.endScan build).ApKept ap := by
  obtain ⟨mode, ended, which⟩ := endScan_eq build g
  rw [ended]
  refine ⟨?_, nofun⟩
  rcases which esp8266 with rfl | rfl
  · exact kept.1
  · exact kept.2 running

theorem apKept_step {g : Glue} {ap : Bool} (esp8266 : build.chip = .esp8266) (kept : g.ApKept ap)
    {input : Input} (outside : ∀ mode, input = .setMode mode → mode.ap = ap) :
    (g.step build input).1.ApKept ap := by
  cases input with
  | byte b around =>
      obtain ⟨parser, result, fed⟩ : ∃ parser result, g.parser.feed b = (parser, result) :=
        ⟨_, _, rfl⟩
      simp only [Glue.step, Glue.receive, fed]
      cases result with
      | rpc =>
          exact apKept_dispatch (g := (({ g with parser } : Glue).passes around.toRpc).heard) esp8266
            kept _ _ _
      | _ => exact kept
  | pollScan scanned =>
      simp only [Glue.step, Glue.pollScan]
      split
      · exact kept
      next busy =>
        have running : g.scanRunning = true := by simpa using busy
        have ended := apKept_endScan esp8266 kept running
        split
        · exact kept
        · exact ended
        · split <;> exact ended
  | pollWifiOutcome joining =>
      simp only [Glue.step, Glue.pollWifiOutcome]
      split
      · exact kept
      split
      · exact kept
      split <;> exact kept
  | consumeKeyChanged later =>
      simp only [Glue.step, Glue.consumeKeyChanged]
      split <;> exact kept
  | setMode mode => exact ⟨outside mode rfl, kept.2⟩

/-- On an ESP8266 no scan takes the setup AP down, in any run in which nobody else does. -/
theorem setupAp_stays (esp8266 : build.chip = .esp8266) (started : start.Started)
    (inputs : List Input) (outside : ∀ mode, .setMode mode ∈ inputs → mode.ap = start.mode.ap) :
    (start.after build inputs).1.mode.ap = start.mode.ap := by
  suffices kept : (start.after build inputs).1.ApKept start.mode.ap from kept.1
  induction inputs using List.reverseRecOn with
  | nil =>
      obtain ⟨payload, deviceName, mode, time, rfl⟩ := started
      exact ⟨rfl, nofun⟩
  | append_singleton inputs input ih =>
      rw [Glue.after, OrderedTrace.run_concat]
      exact apKept_step esp8266 (ih fun mode member => outside mode (List.mem_append_left _ member))
        fun mode same => outside mode (by simp [same])

theorem setupAp_stays_scan :
    (sampleGlue.after sampleBuild
      ((⟨0x04, [], by decide⟩ : Rpc).inputs sampleAround)).1.mode.ap = sampleGlue.mode.ap :=
  setupAp_stays rfl sampleGlue_started _ fun mode member => by
    obtain ⟨b, -, same⟩ := List.mem_map.mp member
    cases same

end Results

end FryFirmware.Improv
