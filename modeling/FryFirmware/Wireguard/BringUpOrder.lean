import FryFirmware.Lib.OrderedTrace
import FryFirmware.Wireguard.BringUp
import Mathlib.Tactic.Common

/-!
# The order of the bring-up

`bringUp`, `init` and `tick` of `src/esp32/vpn_wireguard.cpp` over whole runs, with every
call of the library beside its result, and the task of the relay.
-/

set_option autoImplicit false

namespace FryFirmware.Wireguard.Order

open Config (Vpn text)
open Lib.OrderedTrace

/-- `FRY_SERIAL_PROVISION` and `IP_NAPT`. -/
structure Build where
  serialProvision : Bool
  ipNapt : Bool

inductive Event where
  | init (config : WireguardConfig) (err : Int32)
  | connect (config : WireguardConfig) (err : Int32)
  | addAllowedIp (entry : AllowedIp)
  | naptEnable
  | relayTask
  deriving DecidableEq, Repr

structure VpnState where
  initAttempted : Bool := false
  initialized : Bool := false
  wasUp : Bool := false
  lastBringUpAttemptMs : UInt32 := 0
  deriving DecidableEq, Repr

/-- The two functions of the module that bring the tunnel up; `fry_trigger_start_vpn` is `init`. -/
inductive Entry where
  | init
  | tick
  deriving DecidableEq, Repr

/-- A call, and what it finds: the time, the store, and the answers of the library. -/
structure Call where
  entry : Entry
  now : UInt32
  vpn : Vpn
  answers : BringUpAnswers
  peerUp : Bool

def WG_BRINGUP_RETRY_MS : UInt32 := 5000

def connectLoop (config : WireguardConfig) (answers : Nat → Int32) :
    (left attempt : Nat) → (err : Int32) → List Event × Int32
  | 0, _, err => ([], err)
  | left + 1, attempt, _ =>
      let err := answers attempt
      if err ≠ ESP_ERR_RETRY then ([.connect config err], err)
      else
        let rest := connectLoop config answers left (attempt + 1) err
        (.connect config err :: rest.1, rest.2)

def bringUp (b : Build) (t : VpnState) (v : Vpn) (s : TunnelStrings) (answers : BringUpAnswers) :
    (VpnState × List Event) × Bool :=
  if !answers.ntpSynced then ((t, []), false)
  else
    let config := wireguardConfigOf v s
    let (t, events, err) :=
      if !t.initAttempted then
        ({ t with initAttempted := true }, [Event.init config answers.init], answers.init)
      else (t, [], ESP_OK)
    if err ≠ ESP_OK then ((t, events), false)
    else
      let (connects, err) := connectLoop config answers.connect WG_CONNECT_ATTEMPTS 1 err
      if err ≠ ESP_OK then ((t, events ++ connects), false)
      else
        (({ t with initialized := true },
          events ++ connects ++ (applyAllowedIps v.getWgAllowed).map .addAllowedIp ++
            [if b.ipNapt then .naptEnable else .relayTask]), true)

def gateOpen (b : Build) (v : Vpn) : Bool := b.serialProvision || provisioningGateOpen v

def init (b : Build) (t : VpnState) (c : Call) : VpnState × List Event :=
  match loadConfig c.vpn with
  | none => (t, [])
  | some s => if !gateOpen b c.vpn then (t, []) else (bringUp b t c.vpn s c.answers).1

def tick (b : Build) (t : VpnState) (c : Call) : VpnState × List Event :=
  if !t.initialized then
    if c.now - t.lastBringUpAttemptMs < WG_BRINGUP_RETRY_MS then (t, [])
    else
      let t := { t with lastBringUpAttemptMs := c.now }
      if !c.vpn.hasVpnConfig then (t, [])
      else
        match loadConfig c.vpn with
        | none => (t, [])
        | some s => if !gateOpen b c.vpn then (t, []) else (bringUp b t c.vpn s c.answers).1
  else ({ t with wasUp := c.peerUp }, [])

def step (b : Build) (t : VpnState) (c : Call) : VpnState × List Event :=
  match c.entry with
  | .init => init b t c
  | .tick => tick b t c

/-! ## The calls alone -/

def Event.call : Event → Option EspWireguard
  | .init config _ => some (.init config)
  | .connect config _ => some (.connect config)
  | .addAllowedIp entry => some (.addAllowedIp entry)
  | _ => none

theorem connectLoop_calls (config : WireguardConfig) (answers : Nat → Int32) (left attempt : Nat) (err : Int32) :
    (connectLoop config answers left attempt err).1.filterMap Event.call =
        List.replicate (connectFrom answers left attempt err).1 (.connect config) ∧
      (connectLoop config answers left attempt err).2 = (connectFrom answers left attempt err).2 := by
  induction left generalizing attempt err with
  | zero => exact ⟨rfl, rfl⟩
  | succ left ih =>
      simp only [connectLoop, connectFrom]
      split
      · exact ⟨rfl, rfl⟩
      · obtain ⟨same, last⟩ := ih (attempt + 1) (answers attempt)
        exact ⟨congrArg (EspWireguard.connect config :: ·) same, last⟩

section Cases

variable (b : Build) (t : VpnState) (v : Vpn) (s : TunnelStrings) (answers : BringUpAnswers)

/-- The call of `init` that a bring-up begins with, if it is the first. -/
def firstCall : List Event :=
  if t.initAttempted then [] else [.init (wireguardConfigOf v s) answers.init]

/-- The calls of `connect`, and the result of the last one. -/
def connects : List Event × Int32 :=
  connectLoop (wireguardConfigOf v s) answers.connect WG_CONNECT_ATTEMPTS 1 ESP_OK

/-- What comes behind a connect that succeeded. -/
def lastCalls : List Event :=
  (applyAllowedIps v.getWgAllowed).map .addAllowedIp ++ [if b.ipNapt then .naptEnable else .relayTask]

variable {b t v s answers}

theorem bringUp_unsynced (unsynced : answers.ntpSynced = false) : bringUp b t v s answers = ((t, []), false) := by
  simp [bringUp, unsynced]

theorem bringUp_failed (synced : answers.ntpSynced = true) (fresh : t.initAttempted = false)
    (failed : answers.init ≠ ESP_OK) :
    bringUp b t v s answers = (({ t with initAttempted := true }, firstCall t v s answers), false) := by
  simp [bringUp, synced, fresh, failed, firstCall]

/-- The library is taken as initialised, by this call or without it. -/
def Ready (t : VpnState) (answers : BringUpAnswers) : Prop := t.initAttempted = true ∨ answers.init = ESP_OK

theorem bringUp_ready (synced : answers.ntpSynced = true) (ready : Ready t answers) :
    bringUp b t v s answers =
      if (connects v s answers).2 ≠ ESP_OK then
        (({ t with initAttempted := true }, firstCall t v s answers ++ (connects v s answers).1), false)
      else
        (({ t with initAttempted := true, initialized := true },
          firstCall t v s answers ++ (connects v s answers).1 ++ lastCalls b v), true) := by
  cases attempted : t.initAttempted with
  | true =>
      have same : t = { t with initAttempted := true } := by rw [← attempted]
      rw [← same]
      simp [bringUp, synced, attempted, firstCall, connects, lastCalls, List.append_assoc]
  | false =>
      have good : answers.init = ESP_OK := by
        rcases ready with done | good
        · rw [attempted] at done
          cases done
        · exact good
      simp [bringUp, synced, attempted, good, firstCall, connects, lastCalls, List.append_assoc]

end Cases

/-- Without the results and the relay, this is the bring-up by its calls. -/
theorem bringUp_calls (b : Build) (t : VpnState) (v : Vpn) (s : TunnelStrings) (answers : BringUpAnswers)
    (calls : List EspWireguard) :
    Wireguard.bringUp ⟨t.initAttempted, t.initialized, calls⟩ v s answers =
      (⟨(bringUp b t v s answers).1.1.initAttempted, (bringUp b t v s answers).1.1.initialized,
        calls ++ (bringUp b t v s answers).1.2.filterMap Event.call⟩, (bringUp b t v s answers).2) := by
  cases synced : answers.ntpSynced with
  | false =>
      rw [bringUp_unsynced synced]
      simp [Wireguard.bringUp, synced]
  | true =>
      obtain ⟨same, last⟩ := connectLoop_calls (wireguardConfigOf v s) answers.connect WG_CONNECT_ATTEMPTS 1 ESP_OK
      have entries : (lastCalls b v).filterMap Event.call = (applyAllowedIps v.getWgAllowed).map .addAllowedIp := by
        have listed : ((applyAllowedIps v.getWgAllowed).map Event.addAllowedIp).filterMap Event.call =
            (applyAllowedIps v.getWgAllowed).map .addAllowedIp := by
          rw [List.filterMap_map]
          exact congrFun List.filterMap_eq_map _
        cases napt : b.ipNapt <;> simp [lastCalls, listed, napt, Event.call]
      by_cases ready : Ready t answers
      · have called : Wireguard.bringUp ⟨t.initAttempted, t.initialized, calls⟩ v s answers =
            if (connects v s answers).2 ≠ ESP_OK then
              (⟨true, t.initialized, calls ++ ((firstCall t v s answers).filterMap Event.call ++
                (connects v s answers).1.filterMap Event.call)⟩, false)
            else
              (⟨true, true, calls ++ ((firstCall t v s answers).filterMap Event.call ++
                (connects v s answers).1.filterMap Event.call ++
                (applyAllowedIps v.getWgAllowed).map .addAllowedIp)⟩, true) := by
          rw [connects, same, last]
          cases attempted : t.initAttempted with
          | true => simp [Wireguard.bringUp, synced, firstCall, attempted, List.append_assoc]
          | false =>
              have good : answers.init = ESP_OK := ready.resolve_left (by simp [attempted])
              simp [Wireguard.bringUp, synced, firstCall, attempted, good, Event.call, List.append_assoc]
        rw [bringUp_ready synced ready, called]
        by_cases down : (connects v s answers).2 ≠ ESP_OK
        · rw [if_pos down, if_pos down, List.filterMap_append]
        · rw [if_neg down, if_neg down, List.filterMap_append, List.filterMap_append, entries]
      · obtain ⟨attempted, failed⟩ := not_or.mp ready
        rw [bringUp_failed synced (Bool.eq_false_iff.mpr attempted) failed]
        simp [Wireguard.bringUp, synced, Bool.eq_false_iff.mpr attempted, failed, firstCall, Event.call]

/-! ## The order -/

def Event.isInit : Event → Bool
  | .init _ _ => true
  | _ => false

def Event.initOk : Event → Bool
  | .init _ err => err = ESP_OK
  | _ => false

def Event.connectOk : Event → Bool
  | .connect _ err => err = ESP_OK
  | _ => false

/-- `init` is called once, `connect` only after an `init` that succeeded, and the relay gets one
task, after a `connect` that succeeded. -/
def Allowed (before : List Event) : Event → Prop
  | .init _ _ => before.any Event.isInit = false
  | .connect _ _ => before.any Event.initOk = true
  | .relayTask => Event.relayTask ∉ before ∧ before.any Event.connectOk = true
  | _ => True

instance (before : List Event) (event : Event) : Decidable (Allowed before event) := by
  cases event <;> simp only [Allowed] <;> infer_instance

/-- The answers to the attempts: the retries, then success. -/
def ConnectsFrom (answers : Nat → Int32) (left attempt : Nat) : Prop :=
  ∃ k, k < left ∧ answers (attempt + k) = ESP_OK ∧ ∀ j, j < k → answers (attempt + j) = ESP_ERR_RETRY

abbrev Connects (answers : BringUpAnswers) : Prop := ConnectsFrom answers.connect WG_CONNECT_ATTEMPTS 1

section Attempts

variable {config : WireguardConfig} {answers : Nat → Int32}

theorem connectsFrom_succ {left attempt : Nat} : ConnectsFrom answers (left + 1) attempt ↔
    answers attempt = ESP_OK ∨ answers attempt = ESP_ERR_RETRY ∧ ConnectsFrom answers left (attempt + 1) := by
  constructor
  · rintro ⟨k, less, good, retries⟩
    cases k with
    | zero => exact .inl good
    | succ k =>
        refine .inr ⟨retries 0 (Nat.succ_pos k), k, Nat.lt_of_succ_lt_succ less, ?_, fun j below => ?_⟩
        · rwa [Nat.add_assoc, Nat.add_comm 1]
        · rw [Nat.add_assoc, Nat.add_comm 1]
          exact retries (j + 1) (Nat.succ_lt_succ below)
  · rintro (good | ⟨retry, k, less, good, retries⟩)
    · exact ⟨0, Nat.succ_pos left, good, fun j below => absurd below (Nat.not_lt_zero j)⟩
    · refine ⟨k + 1, Nat.succ_lt_succ less, ?_, fun j below => ?_⟩
      · rwa [Nat.add_assoc, Nat.add_comm 1] at good
      · cases j with
        | zero => exact retry
        | succ j =>
            have later := retries j (Nat.lt_of_succ_lt_succ below)
            rwa [Nat.add_assoc, Nat.add_comm 1] at later

theorem connectLoop_stop {left attempt : Nat} {err : Int32} (other : answers attempt ≠ ESP_ERR_RETRY) :
    connectLoop config answers (left + 1) attempt err =
      ([.connect config (answers attempt)], answers attempt) := if_pos other

theorem connectLoop_retry {left attempt : Nat} {err : Int32} (retry : answers attempt = ESP_ERR_RETRY) :
    connectLoop config answers (left + 1) attempt err =
      (.connect config ESP_ERR_RETRY :: (connectLoop config answers left (attempt + 1) ESP_ERR_RETRY).1,
        (connectLoop config answers left (attempt + 1) ESP_ERR_RETRY).2) := by
  rw [connectLoop, if_neg (not_not.mpr retry), retry]

theorem connectLoop_ok (left attempt : Nat) (err : Int32) :
    (connectLoop config answers (left + 1) attempt err).2 = ESP_OK ↔ ConnectsFrom answers (left + 1) attempt := by
  have apart : ¬ ESP_ERR_RETRY = ESP_OK := by decide
  induction left generalizing attempt err with
  | zero =>
      have none : ¬ ConnectsFrom answers 0 (attempt + 1) := fun ⟨k, less, _⟩ => absurd less (Nat.not_lt_zero k)
      rw [connectsFrom_succ]
      by_cases retry : answers attempt = ESP_ERR_RETRY
      · simp [retry, none, connectLoop]
      · simp [connectLoop_stop retry, none]
  | succ left ih =>
      rw [connectsFrom_succ]
      by_cases retry : answers attempt = ESP_ERR_RETRY
      · simp [connectLoop_retry retry, retry, ih, apart]
      · simp [connectLoop_stop retry, retry]

theorem connectLoop_connects (left attempt : Nat) (err : Int32) :
    ∀ event ∈ (connectLoop config answers left attempt err).1, ∃ err, event = .connect config err := by
  induction left generalizing attempt err with
  | zero => exact nofun
  | succ left ih =>
      by_cases retry : answers attempt = ESP_ERR_RETRY
      · rw [connectLoop_retry retry]
        exact List.forall_mem_cons.mpr ⟨⟨_, rfl⟩, ih _ _⟩
      · rw [connectLoop_stop retry]
        exact List.forall_mem_singleton.mpr ⟨_, rfl⟩

theorem connectLoop_filled (left attempt : Nat) (err : Int32) :
    (connectLoop config answers (left + 1) attempt err).1 ≠ [] := by
  by_cases retry : answers attempt = ESP_ERR_RETRY
  · rw [connectLoop_retry retry]
    exact List.cons_ne_nil _ _
  · rw [connectLoop_stop retry]
    exact List.cons_ne_nil _ _

/-- The last call is the one that succeeded. -/
theorem connectLoop_connectOk (left attempt : Nat) (err : Int32) (started : err ≠ ESP_OK ∨ 0 < left)
    (good : (connectLoop config answers left attempt err).2 = ESP_OK) :
    (connectLoop config answers left attempt err).1.any Event.connectOk = true := by
  induction left generalizing attempt err with
  | zero => exact absurd good (started.resolve_right (Nat.lt_irrefl 0))
  | succ left ih =>
      by_cases retry : answers attempt = ESP_ERR_RETRY
      · rw [connectLoop_retry retry] at good ⊢
        rw [List.any_cons, ih _ _ (.inl (by decide)) good, Bool.or_true]
      · rw [connectLoop_stop retry] at good ⊢
        simp only at good
        simp [Event.connectOk, good]

end Attempts

/-! ## What one call does -/

theorem ordered_connects {before events : List Event} {config : WireguardConfig}
    (all : ∀ event ∈ events, ∃ err, event = .connect config err) (filled : events ≠ []) :
    OrderedFrom Allowed before events ↔ before.any Event.initOk = true := by
  rw [orderedFrom_iff]
  constructor
  · intro allowed
    obtain ⟨first, rest, rfl⟩ := List.exists_cons_of_ne_nil filled
    obtain ⟨err, rfl⟩ := all first List.mem_cons_self
    simpa [Allowed] using allowed [] (.connect config err) rest rfl
  · rintro ready front event back rfl
    obtain ⟨err, rfl⟩ := all event (List.mem_append_right _ List.mem_cons_self)
    rw [Allowed, List.any_append, ready, Bool.true_or]

theorem ordered_lastCalls {before : List Event} {b : Build} {v : Vpn} (connected : before.any Event.connectOk = true) :
    OrderedFrom Allowed before (lastCalls b v) ↔ (b.ipNapt = false → Event.relayTask ∉ before) := by
  have free : OrderedFrom Allowed before ((applyAllowedIps v.getWgAllowed).map .addAllowedIp) := by
    apply orderedFrom_free
    intro event member _
    obtain ⟨entry, -, rfl⟩ := List.mem_map.mp member
    trivial
  rw [lastCalls, orderedFrom_append, and_iff_right free]
  cases b.ipNapt with
  | true => simp [OrderedFrom, Allowed]
  | false => simp [OrderedFrom, Allowed, connected]

/-- The call gets to the library. -/
structure Reaches (b : Build) (t : VpnState) (c : Call) : Prop where
  entered : c.entry = .init ∨ t.initialized = false ∧
    ¬ c.now - t.lastBringUpAttemptMs < WG_BRINGUP_RETRY_MS ∧ c.vpn.hasVpnConfig = true
  config : (loadConfig c.vpn).isSome = true
  gate : gateOpen b c.vpn = true
  synced : c.answers.ntpSynced = true

/-- The two flags are the same. -/
def SameFlags (t after : VpnState) : Prop := after.initAttempted = t.initAttempted ∧ after.initialized = t.initialized

theorem tick_eq (b : Build) (t : VpnState) (c : Call) :
    tick b t c =
      if t.initialized = true then ({ t with wasUp := c.peerUp }, [])
      else if c.now - t.lastBringUpAttemptMs < WG_BRINGUP_RETRY_MS then (t, [])
      else if c.vpn.hasVpnConfig = false then ({ t with lastBringUpAttemptMs := c.now }, [])
      else init b { t with lastBringUpAttemptMs := c.now } c := by
  cases up : t.initialized <;> cases present : c.vpn.hasVpnConfig <;> simp [tick, init, up, present]

theorem init_cases (b : Build) (t : VpnState) (c : Call) :
    (¬ ((loadConfig c.vpn).isSome = true ∧ gateOpen b c.vpn = true ∧ c.answers.ntpSynced = true) ∧
        init b t c = (t, [])) ∨
      ((loadConfig c.vpn).isSome = true ∧ gateOpen b c.vpn = true ∧ c.answers.ntpSynced = true) ∧
        ∃ s, loadConfig c.vpn = some s ∧ init b t c = (bringUp b t c.vpn s c.answers).1 := by
  cases config : loadConfig c.vpn with
  | none => exact .inl ⟨fun both => (nomatch both.1), by rw [init, config]⟩
  | some s =>
      cases gate : gateOpen b c.vpn with
      | false => exact .inl ⟨fun both => (nomatch both.2.1), by simp [init, config, gate]⟩
      | true =>
          cases synced : c.answers.ntpSynced with
          | false => exact .inl ⟨fun both => (nomatch both.2.2), by simp [init, config, gate, bringUp_unsynced synced]⟩
          | true => exact .inr ⟨⟨rfl, rfl, rfl⟩, s, rfl, by simp [init, config, gate]⟩

/-- A call does nothing to the tunnel, or it is a bring-up. -/
theorem step_cases (b : Build) (t : VpnState) (c : Call) :
    (¬ Reaches b t c ∧ (step b t c).2 = [] ∧ SameFlags t (step b t c).1) ∨
      Reaches b t c ∧ ∃ s middle, loadConfig c.vpn = some s ∧ SameFlags t middle ∧
        step b t c = (bringUp b middle c.vpn s c.answers).1 := by
  cases entry : c.entry with
  | init =>
      have same : step b t c = init b t c := by rw [step, entry]
      rw [same]
      rcases init_cases b t c with ⟨short, done⟩ | ⟨⟨config, gate, synced⟩, s, loaded, done⟩
      · rw [done]
        exact .inl ⟨fun reaches => short ⟨reaches.config, reaches.gate, reaches.synced⟩, rfl, rfl, rfl⟩
      · exact .inr ⟨⟨.inl entry, config, gate, synced⟩, s, t, loaded, ⟨rfl, rfl⟩, done⟩
  | tick =>
      have same : step b t c = tick b t c := by rw [step, entry]
      have stays (reaches : Reaches b t c) : t.initialized = false ∧
          ¬ c.now - t.lastBringUpAttemptMs < WG_BRINGUP_RETRY_MS ∧ c.vpn.hasVpnConfig = true :=
        reaches.entered.resolve_left (by simp [entry])
      rw [same, tick_eq]
      by_cases up : t.initialized = true
      · rw [if_pos up]
        exact .inl ⟨fun reaches => by simp [(stays reaches).1] at up, rfl, rfl, rfl⟩
      rw [if_neg up]
      by_cases early : c.now - t.lastBringUpAttemptMs < WG_BRINGUP_RETRY_MS
      · rw [if_pos early]
        exact .inl ⟨fun reaches => (stays reaches).2.1 early, rfl, rfl, rfl⟩
      rw [if_neg early]
      by_cases absent : c.vpn.hasVpnConfig = false
      · rw [if_pos absent]
        exact .inl ⟨fun reaches => by simp [(stays reaches).2.2] at absent, rfl, rfl, rfl⟩
      rw [if_neg absent]
      rcases init_cases b { t with lastBringUpAttemptMs := c.now } c with
        ⟨short, done⟩ | ⟨⟨config, gate, synced⟩, s, loaded, done⟩
      · rw [done]
        exact .inl ⟨fun reaches => short ⟨reaches.config, reaches.gate, reaches.synced⟩, rfl, rfl, rfl⟩
      · have down := Bool.eq_false_iff.mpr up
        have present : c.vpn.hasVpnConfig = true := by simpa using absent
        exact .inr ⟨⟨.inr ⟨down, early, present⟩, config, gate, synced⟩, s, { t with lastBringUpAttemptMs := c.now }, loaded,
          ⟨rfl, rfl⟩, done⟩

/-! ## Runs -/

/-- The flags say what is in the trace. -/
structure Inv (b : Build) (t : VpnState) (trace : List Event) : Prop where
  fresh : t.initAttempted = false → trace = []
  relay : Event.relayTask ∈ trace ↔ t.initialized = true ∧ b.ipNapt = false

theorem Inv.start (b : Build) : Inv b {} [] := ⟨fun _ => rfl, by simp⟩

/-- What a call has to meet: no bring-up goes on after an `init` that failed, and none connects
while the relay has its task. -/
structure Meets (b : Build) (t : VpnState) (trace : List Event) (c : Call) : Prop where
  initialised : Reaches b t c → t.initAttempted = true → trace.any Event.initOk = true
  down : Reaches b t c → t.initialized = true → b.ipNapt = false → ¬ Connects c.answers

theorem Inv.same {b : Build} {t after : VpnState} {trace : List Event} (inv : Inv b t trace)
    (flags : SameFlags t after) : Inv b after trace where
  fresh untried := inv.fresh (flags.1 ▸ untried)
  relay := by rw [flags.2, inv.relay]

section BringUp

variable {b : Build} {t : VpnState} {trace : List Event} {v : Vpn} {s : TunnelStrings} {answers : BringUpAnswers}

theorem relay_firstCall : Event.relayTask ∉ firstCall t v s answers := by
  unfold firstCall
  split
  · exact nofun
  · simp

theorem relay_connects : Event.relayTask ∉ (connects v s answers).1 := by
  intro member
  obtain ⟨err, same⟩ := connectLoop_connects _ _ _ _ member
  cases same

theorem relay_lastCalls : Event.relayTask ∈ lastCalls b v ↔ b.ipNapt = false := by
  cases napt : b.ipNapt <;> simp [lastCalls, napt]

theorem bringUp_inv (inv : Inv b t trace) (synced : answers.ntpSynced = true) :
    Inv b (bringUp b t v s answers).1.1 (trace ++ (bringUp b t v s answers).1.2) := by
  by_cases ready : Ready t answers
  · rw [bringUp_ready synced ready]
    split
    · refine ⟨nofun, ?_⟩
      simp only [List.mem_append, relay_firstCall, relay_connects, or_false]
      exact inv.relay
    · refine ⟨nofun, ?_⟩
      simp only [List.mem_append, relay_firstCall, relay_connects, relay_lastCalls, inv.relay, false_or, true_and]
      exact ⟨fun either => either.elim And.right id, .inr⟩
  · obtain ⟨attempted, failed⟩ := not_or.mp ready
    rw [bringUp_failed synced (Bool.eq_false_iff.mpr attempted) failed]
    refine ⟨nofun, ?_⟩
    simp only [List.mem_append, relay_firstCall, or_false]
    exact inv.relay

theorem ordered_firstCall (inv : Inv b t trace) : OrderedFrom Allowed trace (firstCall t v s answers) := by
  cases attempted : t.initAttempted with
  | true => simp [firstCall, attempted, OrderedFrom]
  | false => simp [firstCall, attempted, inv.fresh attempted, OrderedFrom, Allowed]

theorem initOk_firstCall (ready : Ready t answers) :
    (trace ++ firstCall t v s answers).any Event.initOk = true ↔
      (t.initAttempted = true → trace.any Event.initOk = true) := by
  cases attempted : t.initAttempted with
  | true => simp [firstCall, attempted]
  | false =>
      have good : answers.init = ESP_OK := ready.resolve_left (by simp [attempted])
      simp [firstCall, attempted, Event.initOk, good]

/-- The first call and the attempts keep the order where the library is initialised. -/
theorem ordered_attempts (inv : Inv b t trace) (ready : Ready t answers) :
    OrderedFrom Allowed trace (firstCall t v s answers ++ (connects v s answers).1) ↔
      (t.initAttempted = true → trace.any Event.initOk = true) := by
  have all : ∀ event ∈ (connects v s answers).1, ∃ err, event = .connect (wireguardConfigOf v s) err :=
    connectLoop_connects _ _ _
  have filled : (connects v s answers).1 ≠ [] := connectLoop_filled _ _ _
  rw [orderedFrom_append, and_iff_right (ordered_firstCall inv), ordered_connects all filled,
    initOk_firstCall ready]

/-- A bring-up keeps the order unless an earlier `init` failed, or a second task is created. -/
theorem bringUp_ordered_iff (inv : Inv b t trace) (synced : answers.ntpSynced = true) :
    OrderedFrom Allowed trace (bringUp b t v s answers).1.2 ↔
      (t.initAttempted = true → trace.any Event.initOk = true) ∧
        (t.initialized = true → b.ipNapt = false → ¬ Connects answers) := by
  have connected : (connects v s answers).2 = ESP_OK ↔ Connects answers := connectLoop_ok _ _ _
  by_cases ready : Ready t answers
  · rw [bringUp_ready synced ready]
    by_cases down : (connects v s answers).2 ≠ ESP_OK
    · have unconnected := mt connected.mpr down
      simp only [if_pos down, ordered_attempts inv ready]
      exact ⟨fun attempts => ⟨attempts, fun _ _ => unconnected⟩, And.left⟩
    · have good := not_not.mp down
      have last_ok : (trace ++ (firstCall t v s answers ++ (connects v s answers).1)).any Event.connectOk = true := by
        have some_ok := connectLoop_connectOk _ _ _ (.inr (by decide)) good
        simp only [List.any_append, Bool.or_eq_true]
        exact .inr (.inr some_ok)
      simp only [if_neg down]
      rw [orderedFrom_append, ordered_attempts inv ready, ordered_lastCalls last_ok]
      simp only [List.mem_append, relay_firstCall, relay_connects, or_false, inv.relay, connected.mp good, not_true]
      refine and_congr_right fun _ => ⟨fun untasked up napt => untasked napt ⟨up, napt⟩, fun off napt both => ?_⟩
      exact off both.1 napt
  · obtain ⟨attempted, failed⟩ := not_or.mp ready
    have untried := Bool.eq_false_iff.mpr attempted
    have unrelayed : ¬ (t.initialized = true ∧ b.ipNapt = false) := by
      rw [← inv.relay, inv.fresh untried]
      exact nofun
    rw [bringUp_failed synced untried failed]
    refine ⟨fun _ => ⟨fun tried => absurd tried attempted, fun up napt => absurd ⟨up, napt⟩ unrelayed⟩, fun _ => ?_⟩
    exact ordered_firstCall inv

end BringUp

section Step

variable {b : Build} {t : VpnState} {trace : List Event} {c : Call}

theorem step_inv (inv : Inv b t trace) : Inv b (step b t c).1 (trace ++ (step b t c).2) := by
  rcases step_cases b t c with ⟨-, none, flags⟩ | ⟨reaches, s, middle, -, flags, done⟩
  · rw [none, List.append_nil]
    exact inv.same flags
  · rw [done]
    exact bringUp_inv (inv.same flags) reaches.synced

theorem step_ordered_iff (inv : Inv b t trace) :
    OrderedFrom Allowed trace (step b t c).2 ↔ Meets b t trace c := by
  rcases step_cases b t c with ⟨short, none, -⟩ | ⟨reaches, s, middle, -, flags, done⟩
  · rw [none]
    exact ⟨fun _ => ⟨fun reaches => absurd reaches short, fun reaches => absurd reaches short⟩, fun _ => trivial⟩
  · rw [done, bringUp_ordered_iff (inv.same flags) reaches.synced, flags.1, flags.2]
    exact ⟨fun both => ⟨fun _ => both.1, fun _ => both.2⟩, fun meets => ⟨meets.initialised reaches, meets.down reaches⟩⟩

end Step

/-- The order is kept in a whole run exactly when every call of it meets the condition. -/
theorem tunnel_order_iff (b : Build) (calls : List Call) :
    (∀ front back, calls = front ++ back → Ordered Allowed (run (step b) {} front).2) ↔
      ∀ front c back, calls = front ++ c :: back →
        Meets b (run (step b) {} front).1 (run (step b) {} front).2 c := by
  have exact_run (calls : List Call) : Ordered Allowed (run (step b) {} calls).2 ↔
      ∀ front c back, calls = front ++ c :: back →
        Meets b (run (step b) {} front).1 (run (step b) {} front).2 c :=
    run_ordered_iff (Inv.start b) (fun _ _ _ => step_inv) (fun _ _ _ => step_ordered_iff) calls
  constructor
  · intro all
    exact (exact_run calls).mp (all calls [] (List.append_nil _).symm)
  · rintro each front back rfl
    rw [exact_run front]
    rintro start c rest rfl
    exact each start c (rest ++ back) (by simp)

/-! ## Two runs out of order -/

def provisioned : Vpn :=
  { wgPriv := some (text "cHJpdmF0ZQ=="), wgPeerPub := some (text "cHVibGlj"), wgEndpoint := some (text "203.0.113.7"),
    wgAddr := some (text "10.13.13.2/24"), wgAllowed := some (text "10.13.13.1/32"), wgProvAt := some 1700000000 }

def callAt (entry : Entry) (now : UInt32) (initAnswer : Int32) : Call :=
  ⟨entry, now, provisioned, ⟨true, initAnswer, fun _ => ESP_OK⟩, false⟩

def production : Build := ⟨false, false⟩

/-- `init` fails with `ESP_FAIL`, and the next try connects all the same; and a start after the
tunnel is up creates a second task. -/
theorem order_broken :
    ¬ Ordered Allowed (run (step production) {} [callAt .init 2000 (-1), callAt .tick 7000 (-1)]).2 ∧
      ¬ Ordered Allowed (run (step production) {} [callAt .init 2000 0, callAt .init 9000 0]).2 := by
  constructor <;> decide +kernel

end FryFirmware.Wireguard.Order
